/-!
Text as a list of code points. A text may hold surrogate code points, which is what a byte that
does not decode is kept as, so `String` is not enough. Order is by code point, and length counts
code points.
-/

namespace RecordWire

/-- A Unicode code point, surrogates included. -/
abbrev CodePoint := Fin 0x110000

instance CodePoint.instNeZero : @NeZero Nat Zero.ofOfNat0 0x110000 := ⟨by decide⟩

namespace CodePoint

def ofChar (c : Char) : CodePoint :=
  ⟨c.toNat, by
    have h := c.valid
    simp only [UInt32.isValidChar, Nat.isValidChar] at h
    show c.val.toNat < _
    omega⟩

instance : Coe Char CodePoint := ⟨ofChar⟩

/-- The code point of a number below `0x110000`; larger numbers wrap around. -/
def ofNat (n : Nat) : CodePoint := Fin.ofNat 0x110000 n

theorem val_ofNat {n : Nat} (h : n < 0x110000) : (ofNat n).val = n := Nat.mod_eq_of_lt h

def isSurrogate (c : CodePoint) : Bool := 0xD800 ≤ c.val && c.val ≤ 0xDFFF

def isDigit (c : CodePoint) : Bool := 0x30 ≤ c.val && c.val ≤ 0x39

def isLower (c : CodePoint) : Bool := 0x61 ≤ c.val && c.val ≤ 0x7A

def isUpper (c : CodePoint) : Bool := 0x41 ≤ c.val && c.val ≤ 0x5A

def isLetter (c : CodePoint) : Bool := isLower c || isUpper c

/-- Lower case of the ASCII letters; every other code point stays. -/
def toLower (c : CodePoint) : CodePoint := if isUpper c then ofNat (c.val + 32) else c

/-- Upper case of the ASCII letters; every other code point stays. -/
def toUpper (c : CodePoint) : CodePoint := if isLower c then ofNat (c.val - 32) else c

def quote : CodePoint := 0x22
def apostrophe : CodePoint := 0x27
def backslash : CodePoint := 0x5C
def openBrace : CodePoint := 0x7B
def closeBrace : CodePoint := 0x7D
def openBracket : CodePoint := 0x5B
def closeBracket : CodePoint := 0x5D
def comma : CodePoint := 0x2C
def lineFeed : CodePoint := 0x0A

end CodePoint

/-- A text is its list of code points. -/
abbrev Text := List CodePoint

namespace Text

def ofString (s : String) : Text := s.toList.map CodePoint.ofChar

instance : Coe String Text := ⟨ofString⟩

def ofNat (n : Nat) : Text := (Nat.toDigits 10 n).map CodePoint.ofChar

def ofInt : Int → Text
  | .ofNat n => ofNat n
  | .negSucc n => CodePoint.ofChar '-' :: ofNat (n + 1)

/-- Lower-case hexadecimal digits, with zeros in front up to the width. -/
def hex (width n : Nat) : Text :=
  let digits := (Nat.toDigits 16 n).map CodePoint.ofChar
  List.replicate (width - digits.length) (CodePoint.ofChar '0') ++ digits

def isPrefix : Text → Text → Bool
  | [], _ => true
  | _ :: _, [] => false
  | a :: s, b :: t => a == b && isPrefix s t

def isSuffix (s t : Text) : Bool := isPrefix s.reverse t.reverse

def dropPrefix? : Text → Text → Option Text
  | [], t => some t
  | _ :: _, [] => none
  | a :: s, b :: t => if a = b then dropPrefix? s t else none

theorem dropPrefix?_eq_some {s t r : Text} : dropPrefix? s t = some r ↔ t = s ++ r := by
  induction s generalizing t with
  | nil => simp [dropPrefix?, eq_comm]
  | cons a s ih =>
    cases t with
    | nil => simp [dropPrefix?]
    | cons b t =>
      by_cases h : a = b
      · simp [dropPrefix?, h, ih]
      · simp [dropPrefix?, h, Ne.symm h]

def join (separator : Text) : List Text → Text
  | [] => []
  | [t] => t
  | t :: u :: ts => t ++ separator ++ join separator (u :: ts)

/-- The parts of a text between the occurrences of one code point; never empty. -/
def splitOn (c : CodePoint) : Text → List Text
  | [] => [[]]
  | d :: t =>
    if d = c then [] :: splitOn c t
    else match splitOn c t with
      | [] => [[d]]
      | p :: ps => (d :: p) :: ps

theorem splitOn_ne_nil (c : CodePoint) (t : Text) : splitOn c t ≠ [] := by
  cases t with
  | nil => simp [splitOn]
  | cons d t =>
    simp only [splitOn]
    split
    · simp
    · split <;> simp

/-- Texts are ordered by the first code point in which they differ. -/
def before : Text → Text → Bool
  | [], [] => false
  | [], _ :: _ => true
  | _ :: _, [] => false
  | a :: s, b :: t => decide (a < b) || (a == b && before s t)

def toLower (t : Text) : Text := t.map CodePoint.toLower

def toUpper (t : Text) : Text := t.map CodePoint.toUpper

def hasSurrogate (t : Text) : Bool := t.any CodePoint.isSurrogate

def sorted (ts : List Text) : List Text := ts.mergeSort fun s t => !before t s

end Text

end RecordWire
