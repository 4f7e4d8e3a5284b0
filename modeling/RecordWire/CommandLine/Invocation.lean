import RecordWire.CommandLine.Arguments
import RecordWire.Log.Level

/-!
What the tool can be asked for: a list of the record types of a schema directory, a record from a
document, or a document from a record.
-/

namespace RecordWire.CommandLine

/-- A file, or the standard stream in its place. -/
inductive Place
  | standard
  | file (path : Text)
  /-- A place that was given without a name. -/
  | nameless
  deriving DecidableEq

/-- A record of a type, if the type was given a name. -/
structure Target where
  schemas : Text
  type? : Option Text
  deriving DecidableEq

inductive Command
  | types (schemas : Text)
  | encode (target : Target) (input output : Place)
  | decode (target : Target) (input : Place)
  deriving DecidableEq

namespace Command

def schemas : Command → Text
  | types schemas => schemas
  | encode target _ _ => target.schemas
  | decode target _ => target.schemas

end Command

structure Invocation where
  /-- The file of the configuration. -/
  config? : Option Text
  /-- The name of the level of the log, if it was given one. -/
  level? : Option Text
  command : Command

namespace Invocation

def helpOption : OptionSpec := ⟨["-h", "--help"], .help⟩

def levels : List Text := ["DEBUG", "INFO", "WARNING", "ERROR"]

def readLevel? (t : Text) : Option Text :=
  let level := t.map LogLevel.upper
  if levels.contains level then some level else none

def options : List OptionSpec :=
  [helpOption, ⟨["--config"], .value "config" some⟩, ⟨["--log-level"], .value "level" readLevel?⟩]

def outputOption : OptionSpec := ⟨["-o", "--output"], .value "output" some⟩

def standardName : Text := "-"

def inputSlot : Slot := .optional "input" standardName

def targetSlots : List Slot := [.required "schemas", .required "type"]

def noSubcommand : Subcommand := fun _ => .error .usage

def subcommand : Subcommand
  | [] => .error .usage
  | name :: args =>
    let run (options : List OptionSpec) (slots : List Slot) : Except Exit Found :=
      (parse (helpOption :: options) slots noSubcommand args).map (Found.set "command" (some name))
    if name = "types" then run [] [.required "schemas"]
    else if name = "encode" then run [outputOption] (targetSlots ++ [inputSlot])
    else if name = "decode" then run [] (targetSlots ++ [inputSlot])
    else .error .usage

def place : Option Text → Place
  | none => .nameless
  | some t => if t = standardName then .standard else .file t

def ofValues (values : List (Text × Option Text)) : Invocation :=
  let get (key default : String) : Option Text :=
    (values.lookup (Text.ofString key)).getD (some (Text.ofString default))
  let target : Target := ⟨(get "schemas" "").getD [], get "type" ""⟩
  let input := place (get "input" "-")
  let command := (get "command" "").getD []
  { config? := (get "config" "").filter fun path => !path.isEmpty
    level? := get "level" "WARNING"
    command :=
      if command = "types" then .types target.schemas
      else if command = "encode" then .encode target input (place (get "output" "-"))
      else .decode target input }

def ofArguments (args : List Text) : Except Exit Invocation :=
  match parse options [.command] subcommand args with
  | .error e => .error e
  | .ok f => if f.extras.isEmpty then .ok (ofValues f.values) else .error .usage

end Invocation

end RecordWire.CommandLine
