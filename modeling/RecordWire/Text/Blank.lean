import RecordWire.Text.Basic

/-!
Blank code points, trimming and words. A code point is blank if Unicode gives it the bidirectional
class of a space or separator, or if it is a space separator.
-/

namespace RecordWire

def CodePoint.isBlank (c : CodePoint) : Bool :=
  (0x09 ≤ c.val && c.val ≤ 0x0D) || (0x1C ≤ c.val && c.val ≤ 0x20) || c.val == 0x85 ||
  c.val == 0xA0 || c.val == 0x1680 || (0x2000 ≤ c.val && c.val ≤ 0x200A) || c.val == 0x2028 ||
  c.val == 0x2029 || c.val == 0x202F || c.val == 0x205F || c.val == 0x3000

namespace Text

def trimLeft (t : Text) : Text := t.dropWhile CodePoint.isBlank

def trimRight (t : Text) : Text := (t.reverse.dropWhile CodePoint.isBlank).reverse

def trim (t : Text) : Text := trimRight (trimLeft t)

def compact (t : Text) : Text := t.filter fun c => !c.isBlank

/-- The number of maximal runs without blanks; the flag says that such a run is going on. -/
def countWords (inWord : Bool) : Text → Nat
  | [] => 0
  | c :: t =>
    if c.isBlank then countWords false t
    else if inWord then countWords true t else countWords true t + 1

theorem compact_append (s t : Text) : compact (s ++ t) = compact s ++ compact t := by
  simp [compact]

end Text

end RecordWire
