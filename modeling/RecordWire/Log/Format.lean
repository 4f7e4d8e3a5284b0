import RecordWire.Text.Alphanumeric
import RecordWire.Text.Digit

/-!
Formats of log lines: text with fields such as `%(name)s`. A format has at least one field, which is
a name between parentheses, flags, a width and a precision, and a letter that says how to write it.
-/

namespace RecordWire.LogFormat

def default : Text := "%(levelname)s %(name)s: %(message)s"

def messageOnly : Text := "%(message)s"

def isWord (c : CodePoint) : Bool := c.isAlphanumeric || c = CodePoint.ofChar '_'

def dropWidth (t : Text) : Text :=
  match t with
  | [] => []
  | c :: rest =>
    if c = CodePoint.ofChar '*' then rest
    else t.dropWhile fun c => c.decimalValue?.isSome

def dropPrecision (t : Text) : Text :=
  match t with
  | [] => []
  | c :: rest =>
    let after := dropWidth rest
    if c = CodePoint.ofChar '.' && after.length < rest.length then after else t

def isFlag (c : CodePoint) : Bool := (Text.ofString "#0+ -").elem c

/-- Lower case of the code points that differ from an ASCII letter in nothing but case. -/
def lower (c : CodePoint) : CodePoint :=
  if c.val = 0x130 || c.val = 0x131 then 'i'
  else if c.val = 0x17F then 's'
  else c.toLower

def startsWithConversion : Text → Bool
  | [] => false
  | c :: _ => (Text.ofString "diouxefgcrsa%").elem (lower c)

def startsWithField (t : Text) : Bool :=
  match Text.dropPrefix? "%(" t with
  | none => false
  | some rest =>
    let (name, rest) := rest.span isWord
    match rest with
    | [] => false
    | c :: rest =>
      !name.isEmpty && c = CodePoint.ofChar ')' &&
        startsWithConversion (dropPrecision (dropWidth (rest.dropWhile isFlag)))

def hasField : Text → Bool
  | [] => false
  | c :: t => startsWithField (c :: t) || hasField t

def ofText? (t : Text) : Option Text :=
  let format := if t.isEmpty then messageOnly else t
  if hasField format then some format else none

end RecordWire.LogFormat
