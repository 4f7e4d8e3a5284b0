import RecordWire.CommandLine.Run

/-!
The program. What a run may look at is read before it starts: the configuration, the schema files,
the input, and whether there are directories on the way to them and to the output.
-/

namespace RecordWire.CommandLine

def characters (t : Text) : String := String.ofList (t.map fun c => Char.ofNat c.val)

def bytesOf (content : ByteArray) : Bytes := content.toList

def absolute (place : List Text) : String := characters (Path.slash :: Text.join [Path.slash] place)

def currentPath : IO Text := do return Text.ofString (← IO.currentDir).toString

def observe (tree : FileTree) (place : List Text) : IO FileTree := do
  let path := (← IO.currentDir) / absolute place
  if ← path.isDir then return { tree with directories := place :: tree.directories }
  else if ← path.pathExists then return tree.put place (bytesOf (← IO.FS.readBinFile path))
  else return tree

def observePath (tree : FileTree) (path : Text) : IO FileTree :=
  let place := Path.follow tree.current path
  (List.range (place.length + 1)).foldlM (fun tree n => observe tree (place.take n)) tree

/-- Adds the schema files below a place. -/
partial def observeSchemas (tree : FileTree) (place : List Text) : IO FileTree := do
  let path := (← IO.currentDir) / absolute place
  if ← path.isDir then
    let names := (← path.readDir).toList.map fun entry => Text.ofString entry.fileName
    names.foldlM (fun tree name => observeSchemas tree (place ++ [name])) tree
  else if place.getLast?.any (Text.isSuffix Registry.fileEnding) then observe tree place
  else return tree

def Place.path? : Place → Option Text
  | file path => some path
  | standard | nameless => none

def Command.input? : Command → Option Place
  | types _ => none
  | encode _ input _ => some input
  | decode _ input => some input

def Command.output? : Command → Option Place
  | encode _ _ output => some output
  | _ => none

def Invocation.paths (i : Invocation) : List Text :=
  i.config?.toList ++ [i.command.schemas] ++ (i.command.input?.bind Place.path?).toList ++
    (i.command.output?.bind Place.path?).toList

def surroundings (i : Invocation) : IO Surroundings := do
  let current := Path.follow [] (← currentPath)
  let tree : FileTree := { current := current }
  let tree ← i.paths.foldlM observePath tree
  let files ← observeSchemas tree (Path.follow current i.command.schemas)
  let input ← if i.command.input? = some .standard then readAll (← IO.getStdin) else pure []
  return ⟨files, input⟩
where
  /-- Reads a stream to its end. -/
  readAll (stream : IO.FS.Stream) : IO Bytes := do
    let mut content := ByteArray.empty
    repeat
      let chunk ← stream.read 65536
      if chunk.isEmpty then break
      content := content ++ chunk
    return bytesOf content

def deliver (o : Outcome) : IO UInt32 := do
  if let some (path, content) := o.saved? then
    IO.FS.writeBinFile (characters path) ⟨content.toArray⟩
  (← IO.getStdout).write ⟨o.output.toArray⟩
  IO.eprint (characters o.errors)
  return UInt32.ofNat o.code

def usage : String :=
  "usage: [--config FILE] [--log-level LEVEL] COMMAND\n" ++
  "  types SCHEMAS                               list the record types of a directory\n" ++
  "  encode SCHEMAS TYPE [INPUT] [-o OUTPUT]     a document into a record\n" ++
  "  decode SCHEMAS TYPE [INPUT]                 a record into a document"

end RecordWire.CommandLine

open RecordWire RecordWire.CommandLine in
/-- Runs the tool with arguments; the result is the exit code. -/
def main (args : List String) : IO UInt32 := do
  match Invocation.ofArguments (args.map Text.ofString) with
  | .error .help =>
    IO.println usage
    return 0
  | .error .usage =>
    IO.eprintln usage
    return 2
  | .ok invocation =>
    match outcome (← surroundings invocation) invocation with
    | .ok o => deliver o
    | .error _ =>
      IO.eprintln "Error: the input cannot be worked with"
      return 1
