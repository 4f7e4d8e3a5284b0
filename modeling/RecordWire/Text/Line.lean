import RecordWire.Text.Basic

/-!
The lines of a text. Lines end at any of the Unicode line boundaries; a carriage return followed by
a line feed is one boundary, and a boundary at the very end starts no further line.
-/

namespace RecordWire

def CodePoint.isLineEnd (c : CodePoint) : Bool :=
  (0x0A ≤ c.val && c.val ≤ 0x0D) || (0x1C ≤ c.val && c.val ≤ 0x1E) || c.val == 0x85 ||
  c.val == 0x2028 || c.val == 0x2029

namespace Text

def consLine (c : CodePoint) : List Text → List Text
  | [] => [[c]]
  | l :: ls => (c :: l) :: ls

def lines : Text → List Text
  | [] => []
  | [c] => if c.isLineEnd then [[]] else [[c]]
  | c :: d :: t =>
    if c = 0x0D && d = 0x0A then [] :: lines t
    else if c.isLineEnd then [] :: lines (d :: t)
    else consLine c (lines (d :: t))

/-- A text read from a file: both `\r\n` and a lone `\r` become a line feed. -/
def unifyNewlines : Text → Text
  | [] => []
  | [c] => if c = 0x0D then [0x0A] else [c]
  | c :: d :: t =>
    if c = 0x0D then
      if d = 0x0A then 0x0A :: unifyNewlines t else 0x0A :: unifyNewlines (d :: t)
    else c :: unifyNewlines (d :: t)

end Text

end RecordWire
