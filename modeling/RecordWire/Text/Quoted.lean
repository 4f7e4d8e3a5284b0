import RecordWire.Text.Printable

/-!
Texts and byte strings between quotes. The quote is an apostrophe, unless the text holds an
apostrophe and no double quote. The quote in use, the backslash and what is not printable are
escaped, so a quoted text has no line end in it.
-/

namespace RecordWire

/-- The quote for a text that has apostrophes or double quotes as the flags say. -/
def CodePoint.quoteFor (hasApostrophe hasQuote : Bool) : CodePoint :=
  if hasApostrophe && !hasQuote then quote else apostrophe

namespace Text

/-- Escapes with a letter of their own: tab, line feed and carriage return. -/
def letterEscape? (n : Nat) : Option Text :=
  if n = 0x09 then some [CodePoint.backslash, 't']
  else if n = 0x0A then some [CodePoint.backslash, 'n']
  else if n = 0x0D then some [CodePoint.backslash, 'r']
  else none

def escaped (mark c : CodePoint) : Text :=
  if c = mark || c = CodePoint.backslash then [CodePoint.backslash, c]
  else match letterEscape? c.val with
    | some t => t
    | none =>
      if c.isPrintable then [c]
      else if c.val < 0x100 then CodePoint.backslash :: 'x' :: hex 2 c.val
      else if c.val < 0x10000 then CodePoint.backslash :: 'u' :: hex 4 c.val
      else CodePoint.backslash :: 'U' :: hex 8 c.val

def quoted (t : Text) : Text :=
  let mark := CodePoint.quoteFor (t.contains CodePoint.apostrophe) (t.contains CodePoint.quote)
  mark :: t.flatMap (escaped mark) ++ [mark]

end Text

/-- A string of bytes. -/
abbrev Bytes := List UInt8

namespace Bytes

/-- One byte between quotes; bytes outside printable ASCII are written in hexadecimal. -/
def escaped (marks : List CodePoint) (b : UInt8) : Text :=
  let c := CodePoint.ofNat b.toNat
  if marks.contains c || c = CodePoint.backslash then [CodePoint.backslash, c]
  else match Text.letterEscape? c.val with
    | some t => t
    | none =>
      if 0x20 ≤ c.val && c.val < 0x7F then [c]
      else CodePoint.backslash :: 'x' :: Text.hex 2 c.val

def quoteMark (bs : Bytes) : CodePoint :=
  CodePoint.quoteFor (bs.contains 0x27) (bs.contains 0x22)

def quoted (bs : Bytes) : Text :=
  "b" ++ bs.quoteMark :: bs.flatMap (escaped [bs.quoteMark]) ++ [bs.quoteMark]

/-- The contents of an array of bytes: here an apostrophe is escaped whatever the quote is. -/
def quotedArray (bs : Bytes) : Text :=
  "bytearray(b" ++
    bs.quoteMark :: bs.flatMap (escaped [CodePoint.apostrophe]) ++ [bs.quoteMark] ++ ")"

end Bytes

end RecordWire
