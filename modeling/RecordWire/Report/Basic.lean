import RecordWire.Config.Error
import RecordWire.Report.Class
import RecordWire.Schema.Error
import RecordWire.Value.Compare

/-!
Reports: an error as its reader sees it, with its class, its message, whether another failure led to
it, and what else its class tells. A fault has no class of the library.
-/

namespace RecordWire

/-- What a class of errors tells besides its message. -/
inductive Details
  | none
  | place (description source line column : Value)
  | shortfall (needed available : Value)

inductive Report
  | own (errorClass : ErrorClass) (message : Text) (hasCause : Bool) (details : Details)
  | fault (why : Fault)

namespace Report

def plain (c : ErrorClass) (message : Text) : Report := .own c message false .none

def ofShowable (e : WireError) : Report :=
  let message := e.message?.getD []
  match e with
  | .truncated needed _ available _ =>
    .own .truncatedInput message false (.shortfall (.int needed) (.int available))
  | .oversized .. | .trailing .. => plain .malformedInput message
  | .invalid _ => .own .invalidValue message e.hasCause .none
  | .illegal _ => plain .illegalArgument message
  | .notSerializable _ | .notRecordType _ => plain .serialization message
  | .fault why => .fault why

/-- An error whose message cannot be put into words is only known as a fault. -/
def ofWire (e : WireError) : Report := if e.isShowable then ofShowable e else .fault .badText

def ofSchema (e : SchemaError) : Report :=
  .own .schema e.message e.problem.hasCause
    (.place (.text e.problem.message) ((e.source?.map Value.text).getD .none) (.int e.line)
      (.int e.column))

def ofConfig (e : ConfigError) : Report :=
  match e with
  | .fault why => .fault why
  | e =>
    if e.isShowable then .own .configuration (e.message?.getD []) e.hasCause .none
    else .fault .badText

/-- The arguments of an error that is made by hand, each by its name. -/
def parameters : ErrorClass → List Text
  | .schema => ["message", "source", "line", "column", "cause"]
  | .truncatedInput => ["message", "needed", "available"]
  | _ => ["message", "cause"]

/-- Arguments by name: those given by position come first, and no name is given twice. -/
def bind? (parameters : List Text) (args : List Value) (named : List (Text × Value)) :
    Option (List (Text × Value)) :=
  let given := parameters.zip args ++ named
  let names := given.map (·.1)
  if parameters.length < args.length || names.any (fun n => !parameters.contains n) ||
      !decide names.Nodup then none
  else some given

/-- The message of a schema error at a line that may be any value, unless the value is no number.
No positive line stands for no line. -/
def placeMessage? (description source line column : Value) : Option Text :=
  (line.before? (.int 0)).map fun negative =>
    let hasLine := !(negative || line.equal (.int 0))
    SchemaError.located description.asText (if source.truth then source.asText else []) line.asText
      column.asText hasLine

/-- An error made by hand, or none if its class does not take the arguments. -/
def make? (c : ErrorClass) (args : List Value) (named : List (Text × Value)) : Option Report :=
  (bind? (parameters c) args named).bind fun given =>
    let message? := given.lookup (Text.ofString "message")
    let get (name : String) (default : Value) : Value :=
      (given.lookup (Text.ofString name)).getD default
    let cause : Bool := match get "cause" .none with
      | .atom .none => false
      | _ => true
    match c with
    | .schema => message?.bind fun description =>
      let source := get "source" .none
      let line := get "line" (.int 0)
      let column := get "column" (.int 0)
      (placeMessage? description source line column).map fun message =>
        .own c message cause (.place description source line column)
    | .truncatedInput => message?.map fun message =>
      .own c message.asText false (.shortfall (get "needed" (.int 0)) (get "available" .none))
    | _ => some (.own c ((message?.map Value.asText).getD []) cause .none)

end Report

end RecordWire
