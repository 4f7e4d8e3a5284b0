import RecordWire.Log.Basic
import RecordWire.Log.Format
import RecordWire.Log.Level

/-!
The logger that all components share. It gets a handler by the first configuration; a later one only
changes the levels. A configuration with a text that is no format leaves the level changed and adds no
handler.
-/

namespace RecordWire

inductive HandlerKind
  /-- Writes lines to the standard error stream. -/
  | stream
  | null
  deriving DecidableEq, Repr

def HandlerKind.name : HandlerKind → Text
  | stream => "StreamHandler"
  | null => "NullHandler"

/-- A handler, of which the kind is known or more than that. -/
structure Handler (κ : Type := HandlerKind) where
  kind : κ
  level : Value
  format : Text

structure Logger (κ : Type := HandlerKind) where
  level : Value := .int 0
  handlers : List (Handler κ) := []

namespace Logger

def handler? {κ : Type} (logger : Logger κ) : Option (Handler κ) := logger.handlers.head?

def nameOf : List Value → Except Fault Text
  | [] => .ok Component.rootName
  | [component] =>
    .ok (if component.truth then Component.rootName ++ "." ++ component.asText
      else Component.rootName)
  | _ => .error .unsupported

def defaultLevel : Value := .int Severity.warning.rank

def attach? {κ : Type} (handlers : List (Handler κ)) (level : Value) (format : Text) (kind : κ) :
    Option (List (Handler κ)) :=
  if handlers.isEmpty then (LogFormat.ofText? format).map fun format => [⟨kind, level, format⟩]
  else some handlers

/-- The logger after a configuration, and what was wrong with it. -/
def configure {κ : Type} (logger : Logger κ) (level : Value) (format : Text) (kind : κ) :
    Logger κ × Option ConfigError :=
  match LogLevel.resolve level with
  | .error e => (logger, some e)
  | .ok level =>
    match attach? logger.handlers level format kind with
    | none => ({ logger with level }, some (.fault .badText))
    | some handlers => (⟨level, handlers.map fun h => { h with level := level }⟩, none)

end Logger

end RecordWire
