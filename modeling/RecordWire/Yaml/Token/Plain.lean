import RecordWire.Yaml.Cursor

/-!
Plain scalars: without quotes, up to a comment, a colon before a gap, or the end of the indentation.
Within flow collections commas and brackets end them too.
-/

namespace RecordWire.Yaml

/-- Whether a plain scalar can start with a code point before a text. -/
def startsPlain (inFlow : Bool) : Text → Bool
  | [] => false
  | c :: rest =>
    (!isGap c && !isIndicator c && !isOneOf "-?:" c) ||
      (!startsWithGap rest && (c = CodePoint.ofChar '-' || (!inFlow && isOneOf "?:" c)))

def plainRun (inFlow : Bool) : Text → Text
  | [] => []
  | c :: rest =>
    let ends :=
      isGap c ||
      (c = CodePoint.ofChar ':' &&
        (startsWithGap rest || (inFlow && rest.head?.any isFlowIndicator))) ||
      (inFlow && (isFlowIndicator c || c = CodePoint.ofChar '?'))
    if ends then [] else c :: plainRun inFlow rest

/-- The spaces after a part of a plain scalar as they count within it, whether they have a line
break, and the place after them. -/
def plainSpaces (c : Cursor) : Text × Bool × Cursor :=
  let spaces := c.rest.takeWhile isSpace
  let c := c.skipWhile isSpace
  match c.lineBreak? with
  | none => (spaces, false, c)
  | some (first, c) =>
    match c.breaks? isSpace (c.rest.length + 1) with
    | none => ([], true, c)
    | some (more, c) => (Cursor.folded first more, true, c)

/-- Reads the parts of a plain scalar, which are separated by the spaces before each. The flag of the
result says whether a line break follows the scalar. -/
def plainParts (inFlow : Bool) (indent : Int) :
    (fuel : Nat) → (spaces : Text) → (crossed : Bool) → Cursor → Text × Bool × Cursor
  | 0, _, crossed, c => ([], crossed, c)
  | fuel + 1, spaces, crossed, c =>
    let run := plainRun inFlow c.rest
    if run.isEmpty then ([], crossed, c)
    else
      let (after, crossed, c) := plainSpaces (c.skip run.length)
      if after.isEmpty || c.isAt (CodePoint.ofChar '#') || (!inFlow && c.column < indent) then
        (spaces ++ run, crossed, c)
      else
        let (more, crossed, c) := plainParts inFlow indent fuel after crossed c
        (spaces ++ run ++ more, crossed, c)

def plainScalar (inFlow : Bool) (indent : Int) (c : Cursor) : Text × Bool × Cursor :=
  plainParts inFlow (indent + 1) (c.rest.length + 1) [] false c

end RecordWire.Yaml
