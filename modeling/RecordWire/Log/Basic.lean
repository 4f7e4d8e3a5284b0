import RecordWire.Text.Basic

/-!
Log entries: what the library tells about its work. An entry has a severity and comes from one
component. `Logged` is a computation that adds entries and may fail, and keeps its entries then.
-/

namespace RecordWire

inductive Severity
  | debug | info | warning
  deriving DecidableEq, Repr

namespace Severity

def name : Severity → Text
  | debug => "DEBUG"
  | info => "INFO"
  | warning => "WARNING"

def rank : Severity → Int
  | debug => 10
  | info => 20
  | warning => 30

end Severity

inductive Component
  | schema | serialization | config | cli
  deriving DecidableEq, Repr

namespace Component

def rootName : Text := "sme"

def name : Component → Text
  | schema => "schema"
  | serialization => "serialization"
  | config => "config"
  | cli => "cli"

end Component

structure LogEntry where
  severity : Severity
  component : Component
  text : Text
  deriving DecidableEq

namespace LogEntry

def line (e : LogEntry) : Text :=
  e.severity.name ++ " " ++ Component.rootName ++ "." ++ e.component.name ++ ": " ++ e.text

/-- The lines of the entries that are written at a level. A level of zero is that of warnings. -/
def lines (level : Int) (entries : List LogEntry) : List Text :=
  let least := if level = 0 then Severity.warning.rank else level
  (entries.filter fun e => least ≤ e.severity.rank).map line

end LogEntry

/-- A computation that logs and may fail. -/
abbrev Logged (ε : Type) := EStateM ε (List LogEntry)

namespace Logged

variable {ε ε' α : Type}

def log (severity : Severity) (component : Component) (text : Text) : Logged ε Unit :=
  modify (· ++ [⟨severity, component, text⟩])

def ofExcept : Except ε α → Logged ε α
  | .ok a => pure a
  | .error e => throw e

def mapError (f : ε → ε') (x : Logged ε α) : Logged ε' α := fun entries =>
  match x entries with
  | .ok a entries => .ok a entries
  | .error e entries => .error (f e) entries

def outcome (x : Logged ε α) : List LogEntry × Except ε α :=
  match x [] with
  | .ok a entries => (entries, .ok a)
  | .error e entries => (entries, .error e)

end Logged

end RecordWire
