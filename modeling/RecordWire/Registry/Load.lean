import RecordWire.Files.Tree
import RecordWire.Registry.Basic
import RecordWire.Report.Failure
import RecordWire.Schema.Parser

/-!
Loading schemas: from a text, from a file, or from all schema files below a directory as one batch.
-/

namespace RecordWire.Registry

def fileEnding : Text := ".sme"

abbrev Loading := Logged Failure

def registerAll (r : Registry) (modules : List SchemaModule) :
    Loading (Registry × List RecordType) :=
  (r.registerLogged modules).mapError Failure.ofRegistry

def addSchema (r : Registry) (source text : Text) : Loading (Registry × List RecordType) := do
  let module ← Logged.ofExcept ((Schema.parse source text).mapError .schema)
  r.registerAll [module]

def addSchemas (r : Registry) (schemas : List (Text × Text)) :
    Loading (Registry × List RecordType) := do
  let modules ← Logged.ofExcept
    (collect (schemas.map fun (source, text) => (Schema.parse source text).mapError .schema))
  r.registerAll modules

def parseContent (path : Text) (content : Bytes) : Loading SchemaModule := do
  match content.fileText? with
  | none => throw (.wire (.fault .undecodable))
  | some text =>
    Logged.log .debug .schema ("Parsing schema file " ++ path)
    Logged.ofExcept ((Schema.parse path text).mapError .schema)

def parseFile (files : FileTree) (path : Text) : Loading SchemaModule := do
  Logged.ofExcept (Failure.checkPath path)
  match files.read path with
  | .error e => throw (.schema ⟨.unreadableFile e.message, some path, 0, 0⟩)
  | .ok content => parseContent path content

def loadFile (r : Registry) (files : FileTree) (path : Text) :
    Loading (Registry × List RecordType) := do
  let module ← parseFile files (Path.tidy path)
  r.registerAll [module]

def loadDirectory (r : Registry) (files : FileTree) (path : Text) :
    Loading (Registry × List RecordType) := do
  let root := Path.tidy path
  match files.place root with
  | .error _ => throw (.schema ⟨.noDirectory path, none, 0, 0⟩)
  | .ok place =>
    if files.node? place ≠ some .directory then throw (.schema ⟨.noDirectory path, none, 0, 0⟩)
    let found := files.filesBelow place fileEnding
    if found.isEmpty then
      Logged.log .warning .schema ("No " ++ fileEnding ++ " files found in " ++ path)
    let modules ← found.mapM fun (segments, content) =>
      parseContent (Path.below root segments) content
    let (r, created) ← r.registerAll modules
    Logged.log .info .schema ("Loaded " ++ Text.ofNat created.length ++ " record types from " ++
      Text.ofNat found.length ++ " schema files in " ++ path)
    return (r, created)

end RecordWire.Registry
