import RecordWire.Number.Binary64
import RecordWire.Text.Blank
import RecordWire.Text.Digit

/-!
Reading numbers from text. Blanks around a number do not count, the digits of any script are read,
and single underscores may stand between digits.
-/

namespace RecordWire.Numeral

/-- One code point of a numeral in ASCII: digits of other scripts become ASCII digits, blanks
become spaces, and what can be part of no number becomes a question mark. -/
def plainPoint (c : CodePoint) : CodePoint :=
  if c.val < 0x7F then c
  else if c.isBlank then CodePoint.ofChar ' '
  else match c.decimalValue? with
    | some d => CodePoint.ofNat (0x30 + d)
    | none => CodePoint.ofChar '?'

def isSpace (c : CodePoint) : Bool := (0x09 ≤ c.val && c.val ≤ 0x0D) || c.val == 0x20

def plain (t : Text) : Text :=
  (((t.map plainPoint).dropWhile isSpace).reverse.dropWhile isSpace).reverse

def splitSign : Text → Bool × Text
  | [] => (false, [])
  | c :: t =>
    if c = CodePoint.ofChar '-' then (true, t)
    else if c = CodePoint.ofChar '+' then (false, t)
    else (false, c :: t)

def isUnderscore (c : CodePoint) : Bool := c = CodePoint.ofChar '_'

/-- Without underscores, each of which has to stand between two digits. The flags say whether a
digit and whether an underscore has just passed. -/
def dropUnderscores? : (digit underscore : Bool) → Text → Option Text
  | _, underscore, [] => if underscore then none else some []
  | digit, underscore, c :: t =>
    if isUnderscore c then
      if digit then dropUnderscores? false true t else none
    else if underscore && !c.isDigit then none
    else (dropUnderscores? c.isDigit false t).map (c :: ·)

def digitsValue (t : Text) : Nat := t.foldl (fun n c => 10 * n + (c.val - 0x30)) 0

def maxDigits : Nat := 4300

def readInt? (t : Text) : Option Int :=
  let (negative, body) := splitSign (plain t)
  match dropUnderscores? false false body with
  | none => none
  | some digits =>
    if digits.isEmpty || !digits.all CodePoint.isDigit || maxDigits < digits.length then none
    else some (if negative then -(digitsValue digits : Int) else digitsValue digits)

/-- The number `digits * 10 ^ exponent`, without building numbers that are certain to be infinite
or zero. -/
def ofDecimal (negative : Bool) (digits : Nat) (exponent : Int) : Binary64 :=
  let size : Int := (Nat.toDigits 10 digits).length + exponent
  if digits = 0 || size < -400 then Binary64.ofWord negative 0
  else if 400 < size then Binary64.infinity negative
  else if 0 ≤ exponent then Binary64.ofQuotient negative (digits * 10 ^ exponent.toNat) 1
  else Binary64.ofQuotient negative digits (10 ^ (-exponent).toNat)

/-- The exponent part of a number: empty, or `e`, a sign or none, and digits. -/
def readExponent? : Text → Option Int
  | [] => some 0
  | c :: t =>
    let (negative, digits) := splitSign t
    if c.toLower ≠ CodePoint.ofChar 'e' || digits.isEmpty || !digits.all CodePoint.isDigit then none
    else some (if negative then -(digitsValue digits : Int) else digitsValue digits)

/-- The nearest double precision number to a decimal with a point and an exponent or without. -/
def readDecimal? (negative : Bool) (t : Text) : Option Binary64 :=
  let (whole, rest) := t.span CodePoint.isDigit
  let (part, rest) := match rest with
    | [] => ([], [])
    | c :: r => if c = CodePoint.ofChar '.' then r.span CodePoint.isDigit else ([], c :: r)
  if whole.isEmpty && part.isEmpty then none
  else (readExponent? rest).map fun e =>
    ofDecimal negative (digitsValue (whole ++ part)) (e - part.length)

/-- The double precision number that a text writes: a decimal, an infinity, or `nan`. -/
def readFloat? (t : Text) : Option Binary64 :=
  match dropUnderscores? false false (plain t) with
  | none => none
  | some body =>
    let (negative, body) := splitSign body
    let word := Text.toLower body
    if word = "inf" || word = "infinity" then some (Binary64.infinity negative)
    else if word = "nan" then some (Binary64.nan negative)
    else readDecimal? negative body

end RecordWire.Numeral
