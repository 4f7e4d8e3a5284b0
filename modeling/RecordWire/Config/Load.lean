import RecordWire.Config.Settings
import RecordWire.Files.Tree
import RecordWire.Log.Basic
import RecordWire.Yaml.Load

/-!
Settings from documents: from a text or its bytes, or from a file.
-/

namespace RecordWire

def ConfigError.ofRefusal : Yaml.Refusal → ConfigError
  | .noDocument => .noDocument
  | .noValue => .fault .badText
  | .tooLarge => .fault .tooLarge

/-- The text of a document in bytes: UTF-16 behind a byte order mark, and UTF-8 else, without
exception. -/
def Yaml.decode? (bs : Bytes) : Option Text :=
  let encoding : Encoding :=
    if bs.take 2 = [0xFF, 0xFE] then .utf16le
    else if bs.take 2 = [0xFE, 0xFF] then .utf16be
    else .utf8
  (encoding.decode bs).filter fun t => !t.hasSurrogate

namespace Settings

def ofText (t : Text) : Except ConfigError Settings :=
  match Yaml.load t with
  | .error why => .error (.ofRefusal why)
  | .ok v => ofDocument v

/-- The settings in the document that a value is: a text, or bytes of one. -/
def ofContent (v : Value) : Except ConfigError Settings :=
  match v with
  | .atom (.text t) => ofText t
  | .atom (.bytes bs) =>
    match Yaml.decode? bs with
    | some t => ofText t
    | none => .error .noDocument
  | _ => .error (.fault .noMember)

/-- The path that a value is, if it is one. A number is taken for that of an open file, of which there
are none. -/
def path? (v : Value) : Except ConfigError (Option Text) :=
  match v with
  | .atom (.text t) => .ok (some t)
  | .atom (.bytes bs) | .atom (.byteArray bs) => .ok (Encoding.utf8.decode bs)
  | v =>
    match v.toInt? with
    | some n =>
      if IntKind.holds ⟨.w32, true⟩ n then .ok none else .error (.fault .tooLarge)
    | none => .error (.fault .unsupported)

/-- The settings in the document that a file is, for a reader of documents. -/
def ofFileBy {ε : Type} (find : Value → Except ConfigError ε) (files : FileTree) (v : Value)
    (load : Text → Except Yaml.Refusal Value) : Logged ConfigError Settings := do
  let path? ← Logged.ofExcept (path? v)
  match path?.filter fun path => (files.find? path).isSome, v with
  | none, _ => throw (.noFile v)
  | some _, .atom (.byteArray _) => throw (.fault .unsupported)
  | some path, _ =>
    match files.read path with
    | .error e => throw (.unreadableFile (e.problem.text ++ v.shown))
    | .ok content =>
      match content.fileText? with
      | none => throw (.fault .undecodable)
      | some t =>
        match load t with
        | .error why => throw (.ofRefusal why)
        | .ok document =>
          Logged.log .debug .config ("Loaded codec configuration from " ++ v.asText)
          Logged.ofExcept (ofDocumentBy find document)

def ofFile (files : FileTree) (v : Value) : Logged ConfigError Settings :=
  ofFileBy Encoding.ofValue files v Yaml.load

end Settings

end RecordWire
