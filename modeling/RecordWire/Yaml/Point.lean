import RecordWire.Text.Basic

/-!
Code points as YAML sorts them: line breaks, gaps, indicators, and those that a document may hold.
-/

namespace RecordWire.Yaml

def byteOrderMark : CodePoint := 0xFEFF

def isBreak (c : CodePoint) : Bool :=
  c.val == 0x0A || c.val == 0x0D || c.val == 0x85 || c.val == 0x2028 || c.val == 0x2029

def isSpace (c : CodePoint) : Bool := c.val == 0x20

def isTab (c : CodePoint) : Bool := c.val == 0x09

def isGap (c : CodePoint) : Bool := isSpace c || isTab c || isBreak c

def startsWithGap : Text → Bool
  | [] => true
  | c :: _ => isGap c

def isOneOf (s : String) (c : CodePoint) : Bool := (Text.ofString s).elem c

def isFlowIndicator (c : CodePoint) : Bool :=
  isOneOf ",[]" c || c = CodePoint.openBrace || c = CodePoint.closeBrace

/-- What cannot start a plain scalar, even before another code point. -/
def isIndicator (c : CodePoint) : Bool := isFlowIndicator c || isOneOf "#&*!|>'\"%@`" c

def isAllowed (c : CodePoint) : Bool :=
  c.val == 0x09 || c.val == 0x0A || c.val == 0x0D || (0x20 ≤ c.val && c.val ≤ 0x7E) ||
  c.val == 0x85 || (0xA0 ≤ c.val && c.val ≤ 0xD7FF) || (0xE000 ≤ c.val && c.val ≤ 0xFFFD) ||
  0x10000 ≤ c.val

end RecordWire.Yaml
