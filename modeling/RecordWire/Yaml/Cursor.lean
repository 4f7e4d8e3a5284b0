import RecordWire.Yaml.Point

/-!
A place in a document: what is left of it, and how much has gone before. A carriage return and a line
feed are one line break, and a byte order mark takes no column.
-/

namespace RecordWire.Yaml

structure Cursor where
  rest : Text
  index : Nat := 0
  line : Nat := 0
  column : Nat := 0

namespace Cursor

def next (c : Cursor) : Cursor :=
  match c.rest with
  | [] => c
  | p :: rest =>
    if isBreak p && !(p.val == 0x0D && rest.head? = some CodePoint.lineFeed) then
      ⟨rest, c.index + 1, c.line + 1, 0⟩
    else ⟨rest, c.index + 1, c.line, if p = byteOrderMark then c.column else c.column + 1⟩

def skip : Nat → Cursor → Cursor
  | 0, c => c
  | n + 1, c => skip n c.next

def skipWhile (p : CodePoint → Bool) (c : Cursor) : Cursor :=
  skip (c.rest.takeWhile p).length c

def isAt (c : Cursor) (p : CodePoint) : Bool := c.rest.head? = some p

/-- What a line break at the place counts as, and the place after it. -/
def lineBreak? (c : Cursor) : Option (CodePoint × Cursor) :=
  match c.rest with
  | [] => none
  | p :: rest =>
    if p.val = 0x0D && rest.head? = some CodePoint.lineFeed then
      some (CodePoint.lineFeed, c.next.next)
    else if p.val = 0x2028 || p.val = 0x2029 then some (p, c.next)
    else if isBreak p then some (CodePoint.lineFeed, c.next)
    else none

/-- Whether a line at the place is a mark of the kind given: three of it, and then a gap. -/
def isAtMark (mark : String) (c : Cursor) : Bool :=
  match Text.dropPrefix? mark c.rest with
  | some rest => startsWithGap rest
  | none => false

def isAtEdge (c : Cursor) : Bool := c.isAtMark "---" || c.isAtMark "..."

/-- The line breaks at a place, with blanks between them skipped, and the place after them. There is
no result if a document starts or ends there. -/
def breaks? (isBlank : CodePoint → Bool) : (fuel : Nat) → Cursor → Option (Text × Cursor)
  | 0, _ => none
  | fuel + 1, c =>
    if c.isAtEdge then none
    else
      let c := c.skipWhile isBlank
      match c.lineBreak? with
      | none => some ([], c)
      | some (b, c) => (breaks? isBlank fuel c).map fun (bs, c) => (b :: bs, c)

/-- Line breaks as they count within a scalar: a single one is a space, and of several the first is
left out. -/
def folded (first : CodePoint) (more : Text) : Text :=
  if first ≠ CodePoint.lineFeed then first :: more
  else if more.isEmpty then [CodePoint.ofChar ' ']
  else more

end Cursor

end RecordWire.Yaml
