import RecordWire.Text.Basic

/-!
What a document is written on: the text so far, the column, and whether a space or only indentation
has just been written.
-/

namespace RecordWire.Yaml

structure Canvas where
  /-- The text, the last code point first. -/
  reversed : Text := []
  column : Nat := 0
  /-- Whether what comes next needs no space in front. -/
  spaced : Bool := true
  /-- Whether nothing but indentation and marks of entries stands on the line. -/
  fresh : Bool := true

namespace Canvas

def width : Nat := 80

def text (c : Canvas) : Text := c.reversed.reverse

def put (t : Text) (c : Canvas) : Canvas :=
  { c with reversed := t.reverse ++ c.reversed, column := c.column + t.length }

def endLine (mark : CodePoint) (c : Canvas) : Canvas := ⟨mark :: c.reversed, 0, true, true⟩

/-- Goes to an indentation, on the next line unless this one has nothing on it yet. -/
def indentTo (indent : Nat) (c : Canvas) : Canvas :=
  let c :=
    if !c.fresh || indent < c.column || (c.column = indent && !c.spaced) then
      c.endLine CodePoint.lineFeed
    else c
  if c.column < indent then
    { c.put (List.replicate (indent - c.column) (CodePoint.ofChar ' ')) with spaced := true }
  else c

/-- Writes an indicator, with a space in front where it needs one. -/
def indicator (t : Text) (needsSpace : Bool) (c : Canvas) : Canvas :=
  { c.put (if c.spaced || !needsSpace then t else CodePoint.ofChar ' ' :: t) with
    spaced := false, fresh := false }

/-- Writes the mark of an entry, which leaves the line as fresh as it was. -/
def mark (t : Text) (c : Canvas) : Canvas :=
  { c.indicator t true with fresh := c.fresh }

def continueAt (indent : Nat) (c : Canvas) : Canvas :=
  { c.indentTo indent with spaced := false, fresh := false }

end Canvas

end RecordWire.Yaml
