import RecordWire.Yaml.Scalar
import RecordWire.Yaml.Point

/-!
How a scalar is written: plain if it reads back as what it is and has nothing in it that a plain
scalar cannot have, else between apostrophes, and between double quotes if something has to be
escaped or if spaces and line breaks meet.
-/

namespace RecordWire.Yaml

inductive Style
  | plain | single | double
  deriving DecidableEq, Repr

def isLineEnd (c : CodePoint) : Bool :=
  c.val == 0x0A || c.val == 0x85 || c.val == 0x2028 || c.val == 0x2029

def isSpecial (c : CodePoint) : Bool :=
  !(c.val == 0x0A || (0x20 ≤ c.val && c.val ≤ 0x7E)) &&
    !((c.val == 0x85 || (0xA0 ≤ c.val && c.val ≤ 0xD7FF) || (0xE000 ≤ c.val && c.val ≤ 0xFFFD) ||
      (0x10000 ≤ c.val && c.val < 0x10FFFF)) && c != byteOrderMark)

/-- Whether a text has an indicator in a place where it ends a plain scalar. The flag says that a gap
has just passed. -/
def hasIndicator (afterGap : Bool) : Text → Bool
  | [] => false
  | c :: rest =>
    (c = CodePoint.ofChar ':' && startsWithGap rest) ||
      (c = CodePoint.ofChar '#' && afterGap) || hasIndicator (isGap c) rest

/-- Whether a text has an indicator in it, or at its start one that no plain scalar starts with. -/
def hasIndicators (t : Text) : Bool :=
  Text.isPrefix "---" t || Text.isPrefix "..." t || hasIndicator false t ||
    match t with
    | [] => false
    | c :: rest => isIndicator c || (isOneOf "?:-" c && startsWithGap rest)

/-- Whether a code point of one kind comes right before one of another. -/
def meets (p q : CodePoint → Bool) : Text → Bool
  | c :: d :: rest => (p c && q d) || meets p q (d :: rest)
  | _ => false

def hasLooseEnd (t : Text) : Bool :=
  let isLoose (c : CodePoint) : Bool := isSpace c || isLineEnd c
  t.head?.any isLoose || t.getLast?.any isLoose

def canBePlain (t : Text) : Bool :=
  !hasLooseEnd t && !t.any isLineEnd && !t.any isSpecial && !hasIndicators t

/-- Whether nothing in a text keeps it from standing between apostrophes. -/
def canBeSingle (t : Text) : Bool :=
  !meets isLineEnd isSpace t && !meets isSpace isLineEnd t && !t.any isSpecial

def readsAsText (t : Text) : Bool :=
  match Plain.ofText t with
  | .atom (.text _) => true
  | _ => false

/-- The style of a text, which may be a key on the line of its value. -/
def styleOf (isKey : Bool) (t : Text) : Style :=
  if readsAsText t && canBePlain t then .plain
  else if canBeSingle t && !(isKey && t.any isLineEnd) then .single
  else .double

end RecordWire.Yaml
