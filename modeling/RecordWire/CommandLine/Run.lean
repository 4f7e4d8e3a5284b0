import RecordWire.CommandLine.Invocation
import RecordWire.Config.Load
import RecordWire.Registry.Load
import RecordWire.Service.Basic
import RecordWire.Yaml.Printer

/-!
Running the tool. What can go wrong with schemas, configurations, documents, records and files is
told on the standard error stream, and the exit code is one then. Other faults are not caught. What a
run has logged and produced stays, however the run ends.
-/

namespace RecordWire.CommandLine

/-- What a run works on. -/
structure Surroundings where
  files : FileTree
  input : Bytes

/-- What a run has come to. -/
structure Progress where
  entries : List LogEntry := []
  output : Bytes := []
  /-- A file that was saved, with its content. -/
  saved? : Option (Text × Bytes) := none

/-- How documents are read and written, and what strings can be encoded with beside the encodings that
are built in. -/
structure Documents where
  load : Text → Except Yaml.Refusal Value := Yaml.load
  print : Value → Option Text := Yaml.print
  encodings : Text → Option TextCodec := fun _ => none

/-- A computation that produces something, logs and may fail. -/
abbrev Running := EStateM Failure Progress

namespace Running

def logged {α : Type} (x : Logged Failure α) : Running α := fun p =>
  match x p.entries with
  | .ok a entries => .ok a { p with entries }
  | .error e entries => .error e { p with entries }

def put (bs : Bytes) : Running Unit := modify fun p => { p with output := p.output ++ bs }

end Running

def loadSettings (d : Documents) (s : Surroundings) : Option Text → Logged Failure Settings
  | none => pure {}
  | some path =>
    (Settings.ofFileBy (TextCodec.ofValue d.encodings) s.files (.text path) d.load).mapError .config

def findType (r : Registry) : Option Text → Logged Failure (Text × RecordType)
  | none => throw (.fault .unsupported)
  | some name =>
    match r.find? name with
    | some type => pure (name, type)
    | none => throw (.unknownType name r.names)

def readBytes (s : Surroundings) : Place → Logged Failure Bytes
  | .standard => pure s.input
  | .nameless => throw (.fault .unsupported)
  | .file path => do
    Logged.ofExcept (Failure.checkPath path)
    Logged.ofExcept ((s.files.read path).mapError .file)

def readDocument (d : Documents) (s : Surroundings) (place : Place) : Logged Failure Value := do
  let content ← readBytes s place
  match content.fileText? with
  | none => throw (.fault .undecodable)
  | some t =>
    match d.load t with
    | .error .noDocument => throw .noDocument
    | .error .noValue => throw (.fault .badText)
    | .error .tooLarge => throw (.fault .tooLarge)
    | .ok v => return v

def fieldLine (layout name : Text) : Text :=
  "    " ++ layout ++ " " ++ name ++ [CodePoint.lineFeed]

def typeLines (name : Text) (type : RecordType) : Text :=
  name ++ [CodePoint.lineFeed] ++ type.fields.flatMap fun f => fieldLine f.layout.name f.name

def listTypes (r : Registry) : Text :=
  r.names.flatMap fun name => ((r.find? name).map (typeLines name)).getD []

def utf8 (t : Text) : Bytes := (Encoding.utf8.encode t).getD []

def save (s : Surroundings) (content : Bytes) : Place → Running Unit
  | .standard => Running.put content
  | .nameless => throw (.fault .unsupported)
  | .file path => do
    Running.logged (Logged.ofExcept (Failure.checkPath path))
    match s.files.write path content with
    | .error e => throw (.file e)
    | .ok _ => modify fun p => { p with saved? := some (path, content) }

/-- The bytes of the record in a document, and the name of its type. -/
def encodeDocument (d : Documents) (s : Surroundings) (config : ConfigOf TextCodec) (r : Registry)
    (type? : Option Text) (input : Place) : Logged Failure (Text × Bytes) := do
  let (type, recordType) ← findType r type?
  let document ← readDocument d s input
  let record ← Logged.ofExcept
    ((recordType.fromDict (if document.truth then document else .dict [])).mapError .wire)
  let content ← (Service.serialize config record).mapError .wire
  return (type, content)

def encode (d : Documents) (s : Surroundings) (config : ConfigOf TextCodec) (r : Registry)
    (type? : Option Text) (input output : Place) : Running Unit := do
  let (type, content) ← Running.logged (encodeDocument d s config r type? input)
  save s content output
  Running.logged (Logged.log .info .cli
    ("Encoded " ++ type ++ " into " ++ Text.ofNat content.length ++ " bytes"))

def decodeBytes (d : Documents) (s : Surroundings) (config : ConfigOf TextCodec) (r : Registry)
    (type? : Option Text) (input : Place) : Logged Failure Bytes := do
  let (_, recordType) ← findType r type?
  let content ← readBytes s input
  let record ← (Service.deserialize config recordType content).mapError .wire
  let plain ← Logged.ofExcept (((Layout.record recordType).toPlain record).mapError .wire)
  match d.print plain with
  | none => throw .noDocument
  | some t =>
    match Encoding.utf8.encode t with
    | none => throw (.fault .unencodable)
    | some bs => return bs

/-- The configuration of a run, and the record types that it knows. -/
def prepare (d : Documents) (s : Surroundings) (i : Invocation) :
    Logged Failure (ConfigOf TextCodec × Registry) := do
  let settings ← loadSettings d s i.config?
  let config ← Logged.ofExcept
    ((settings.checkBy (TextCodec.ofValue d.encodings)).mapError .config)
  let (r, _) ← Registry.loadDirectory { origin := 0 } s.files i.command.schemas
  return (config, r)

def run (d : Documents) (s : Surroundings) (i : Invocation) : Running Unit := do
  let (config, r) ← Running.logged (prepare d s i)
  match i.command with
  | .types _ => Running.put (utf8 (listTypes r))
  | .encode target input output => encode d s config r target.type? input output
  | .decode target input =>
    let content ← Running.logged (decodeBytes d s config r target.type? input)
    Running.put content

/-- What a run leaves behind. -/
structure Outcome where
  code : Nat
  output : Bytes
  errors : Text
  saved? : Option (Text × Bytes)

/-- What a run that fails tells, unless the failure is a fault that is not caught. -/
def failureText? : Failure → Option Text
  | .file e => some e.message
  | .noDocument => some []
  | e =>
    match e.report with
    | .own _ message _ _ => some message
    | .fault _ => none

/-- The level of the log. One without a name is taken for an empty list. -/
def logLevel (i : Invocation) : Except ConfigError Int :=
  (LogLevel.resolve ((i.level?.map .text).getD (.list []))).map LogLevel.number

/-- Runs the tool. An unknown level is not caught. -/
def outcome (s : Surroundings) (i : Invocation) (d : Documents := {}) :
    Except Failure Outcome :=
  match logLevel i with
  | .error e => .error (.config e)
  | .ok level =>
    let log (p : Progress) : Text :=
      (LogEntry.lines level p.entries).flatMap fun line => line ++ [CodePoint.lineFeed]
    match run d s i {} with
    | .ok _ p => .ok ⟨0, p.output, log p, p.saved?⟩
    | .error e p =>
      match failureText? e with
      | some message =>
        .ok ⟨1, p.output, log p ++ "Error: " ++ message ++ [CodePoint.lineFeed], p.saved?⟩
      | none => .error e

end RecordWire.CommandLine
