import RecordWire.Files.Path
import RecordWire.Text.Encoding
import RecordWire.Text.Line

/-!
A tree of files and directories. A place in the tree is the list of names that lead to it from the
root; a path starts there or at the current directory, and leads to a place if every segment before
its last one is in a directory.
-/

namespace RecordWire

inductive FileProblem
  | noEntry | notDirectory | isDirectory
  deriving DecidableEq, Repr

/-- Why a path could not be opened. -/
structure FileError where
  problem : FileProblem
  path : Text
  deriving DecidableEq

def FileProblem.text : FileProblem → Text
  | noEntry => "[Errno 2] No such file or directory: "
  | notDirectory => "[Errno 20] Not a directory: "
  | isDirectory => "[Errno 21] Is a directory: "

def FileError.message (e : FileError) : Text := e.problem.text ++ e.path.quoted

inductive FileNode
  | file (content : Bytes)
  | directory
  deriving DecidableEq

/-- Files by place, and further directories; everything above either is a directory. -/
structure FileTree where
  files : List (List Text × Bytes) := []
  directories : List (List Text) := []
  /-- The place where relative paths start. -/
  current : List Text := []

namespace FileTree

def leadsTo (place other : List Text) : Bool := place.isPrefixOf other

def node? (tree : FileTree) (place : List Text) : Option FileNode :=
  match tree.files.lookup place with
  | some content => some (.file content)
  | none =>
    if leadsTo place tree.current || tree.directories.any (leadsTo place) ||
        tree.files.any fun f => leadsTo place f.1 then some .directory
    else none

def step (tree : FileTree) (place : List Text) (segment : Text) :
    Except FileProblem (List Text) :=
  match tree.node? place with
  | none => .error .noEntry
  | some (.file _) => .error .notDirectory
  | some .directory =>
    if Path.stays segment then .ok place
    else if segment = Path.up then .ok place.dropLast
    else .ok (place ++ [segment])

def place (tree : FileTree) (path : Text) : Except FileProblem (List Text) :=
  if path.isEmpty then .error .noEntry
  else (Path.segments path).foldlM tree.step (if Path.isAbsolute path then [] else tree.current)

def find? (tree : FileTree) (path : Text) : Option FileNode :=
  match tree.place path with
  | .ok place => tree.node? place
  | .error _ => none

def isDirectory (tree : FileTree) (path : Text) : Bool := tree.find? path = some .directory

def read (tree : FileTree) (path : Text) : Except FileError Bytes :=
  match tree.place path with
  | .error problem => .error ⟨problem, path⟩
  | .ok place =>
    match tree.node? place with
    | some (.file content) => .ok content
    | some .directory => .error ⟨.isDirectory, path⟩
    | none => .error ⟨.noEntry, path⟩

def put (tree : FileTree) (place : List Text) (content : Bytes) : FileTree :=
  { tree with files := (place, content) :: tree.files.filter fun f => f.1 ≠ place }

/-- Why no file can be put where a path does not lead: a new file is not named with a slash. -/
def noPlace (tree : FileTree) (path : Text) (problem : FileProblem) : FileProblem :=
  if problem = .noEntry && path.getLast? = some Path.slash && (tree.place path.dropLast).isOk then
    .isDirectory
  else problem

/-- The tree after the file that a path leads to has got a content; the file may be new. -/
def write (tree : FileTree) (path : Text) (content : Bytes) : Except FileError FileTree :=
  match tree.place path with
  | .error problem => .error ⟨tree.noPlace path problem, path⟩
  | .ok place =>
    if tree.node? place = some .directory then .error ⟨.isDirectory, path⟩
    else .ok (tree.put place content)

/-- The files below a place whose names have an ending, by the segments that follow the place, in
the order of these. -/
def filesBelow (tree : FileTree) (place : List Text) (ending : Text) :
    List (List Text × Bytes) :=
  let found := tree.files.filterMap fun (p, content) =>
    if leadsTo place p && p.getLast?.any (Text.isSuffix ending) && place.length < p.length then
      some (p.drop place.length, content)
    else none
  found.mergeSort fun f g => !segmentsBefore g.1 f.1
where
  segmentsBefore : List Text → List Text → Bool
    | [], [] => false
    | [], _ :: _ => true
    | _ :: _, [] => false
    | a :: s, b :: t => Text.before a b || (a == b && segmentsBefore s t)

/-- Adds what a path without `..` and a content stand for: a directory, if the path ends in a
slash. -/
def add (tree : FileTree) (path : Text) (content : Bytes) : FileTree :=
  let start := if Path.isAbsolute path then [] else tree.current
  let place := start ++ (Path.segments path).filter fun s => !Path.stays s
  if path.getLast? = some Path.slash then { tree with directories := place :: tree.directories }
  else tree.put place content

end FileTree

/-- The text of a file: UTF-8 without exception, and with line feeds only. -/
def Bytes.fileText? (content : Bytes) : Option Text :=
  match Encoding.utf8.decode content with
  | some t => if t.hasSurrogate then none else some t.unifyNewlines
  | none => none

end RecordWire
