import RecordWire.Text.Quoted

/-!
Text encodings. Decoding keeps a byte that does not decode as an escape, the surrogate
`U+DC00 + byte`, and encoding writes an escape as its byte. Under the single-byte encodings and
UTF-8 every byte string decodes, and encodes back to itself. The UTF-16 encodings cannot write a
surrogate, and refuse to escape a byte below 128.
-/

namespace RecordWire

inductive Encoding
  | utf8 | latin1 | ascii | utf16le | utf16be
  deriving DecidableEq, Repr

namespace Encoding

/-- What a byte of 128 or more that does not decode is kept as. -/
def escape (b : UInt8) : CodePoint := CodePoint.ofNat (0xDC00 + b.toNat)

def escapedByte? (c : CodePoint) : Option UInt8 :=
  if 0xDC80 ≤ c.val && c.val ≤ 0xDCFF then some (UInt8.ofNat (c.val - 0xDC00)) else none

def ofByte (b : UInt8) : CodePoint := CodePoint.ofNat b.toNat

def isTail (b : UInt8) : Bool := 0x80 ≤ b && b ≤ 0xBF

def isPair (a b : UInt8) : Bool := 0xC2 ≤ a && a ≤ 0xDF && isTail b

/-- Three bytes that form one code point: no overlong forms and no surrogates. -/
def isTriple (a b c : UInt8) : Bool :=
  (if a = 0xE0 then 0xA0 ≤ b && b ≤ 0xBF
   else if a = 0xED then 0x80 ≤ b && b ≤ 0x9F
   else 0xE1 ≤ a && a ≤ 0xEF && isTail b) && isTail c

/-- Four bytes that form one code point: no overlong forms and nothing above `U+10FFFF`. -/
def isQuadruple (a b c d : UInt8) : Bool :=
  (if a = 0xF0 then 0x90 ≤ b && b ≤ 0xBF
   else if a = 0xF4 then 0x80 ≤ b && b ≤ 0x8F
   else 0xF1 ≤ a && a ≤ 0xF3 && isTail b) && isTail c && isTail d

def ofPair (a b : UInt8) : CodePoint :=
  CodePoint.ofNat ((a.toNat - 0xC0) * 0x40 + (b.toNat - 0x80))

def ofTriple (a b c : UInt8) : CodePoint :=
  CodePoint.ofNat (((a.toNat - 0xE0) * 0x40 + (b.toNat - 0x80)) * 0x40 + (c.toNat - 0x80))

def ofQuadruple (a b c d : UInt8) : CodePoint :=
  CodePoint.ofNat ((((a.toNat - 0xF0) * 0x40 + (b.toNat - 0x80)) * 0x40 + (c.toNat - 0x80)) * 0x40 +
    (d.toNat - 0x80))

/-- UTF-8 with escapes: each byte that starts no well-formed sequence is kept as its escape. -/
def decodeUtf8 : Bytes → Text
  | [] => []
  | a :: r =>
    if a < 0x80 then ofByte a :: decodeUtf8 r
    else match r with
      | [] => [escape a]
      | b :: s =>
        if isPair a b then ofPair a b :: decodeUtf8 s
        else match s with
          | [] => escape a :: decodeUtf8 [b]
          | c :: t =>
            if isTriple a b c then ofTriple a b c :: decodeUtf8 t
            else match t with
              | [] => escape a :: decodeUtf8 (b :: [c])
              | d :: u =>
                if isQuadruple a b c d then ofQuadruple a b c d :: decodeUtf8 u
                else escape a :: decodeUtf8 (b :: c :: d :: u)

/-- Decoding byte by byte below a limit, with escapes at and above it. -/
def decodeBelow (limit : Nat) (bs : Bytes) : Text :=
  bs.map fun b => if b.toNat < limit then ofByte b else escape b

def unit (bigEndian : Bool) (a b : UInt8) : Nat :=
  if bigEndian then a.toNat * 0x100 + b.toNat else b.toNat * 0x100 + a.toNat

def isHighUnit (u : Nat) : Bool := 0xD800 ≤ u && u ≤ 0xDBFF

def isLowUnit (u : Nat) : Bool := 0xDC00 ≤ u && u ≤ 0xDFFF

def ofUnits (high low : Nat) : CodePoint :=
  CodePoint.ofNat (0x10000 + (high - 0xD800) * 0x400 + (low - 0xDC00))

/-- UTF-16 with escapes. Of a unit that is half a pair only, the leading bytes of 128 or more are
kept as escapes, and decoding goes on right behind them, also in the middle of the unit. There is
no text if the first byte of such a unit, or a single byte left at the end, is below 128. -/
def decodeUtf16 (bigEndian : Bool) : Bytes → Option Text
  | [] => some []
  | [a] => if a < 0x80 then none else some [escape a]
  | a :: b :: r =>
    let u := unit bigEndian a b
    let lone : Unit → Option Text := fun _ =>
      if a < 0x80 then none
      else if b < 0x80 then (decodeUtf16 bigEndian (b :: r)).map (escape a :: ·)
      else (decodeUtf16 bigEndian r).map fun t => escape a :: escape b :: t
    if isHighUnit u then
      match r with
      | c :: d :: s =>
        let v := unit bigEndian c d
        if isLowUnit v then (decodeUtf16 bigEndian s).map (ofUnits u v :: ·) else lone ()
      | _ => lone ()
    else if isLowUnit u then lone ()
    else (decodeUtf16 bigEndian r).map (CodePoint.ofNat u :: ·)

/-- The text of a byte string, if the encoding can keep all of its bytes. -/
def decode : Encoding → Bytes → Option Text
  | utf8, bs => some (decodeUtf8 bs)
  | latin1, bs => some (decodeBelow 0x100 bs)
  | ascii, bs => some (decodeBelow 0x80 bs)
  | utf16le, bs => decodeUtf16 false bs
  | utf16be, bs => decodeUtf16 true bs

def utf8Bytes (c : CodePoint) : Bytes :=
  let n := c.val
  if n < 0x80 then [UInt8.ofNat n]
  else if n < 0x800 then [UInt8.ofNat (0xC0 + n / 0x40), UInt8.ofNat (0x80 + n % 0x40)]
  else if n < 0x10000 then
    [UInt8.ofNat (0xE0 + n / 0x1000), UInt8.ofNat (0x80 + n / 0x40 % 0x40),
      UInt8.ofNat (0x80 + n % 0x40)]
  else
    [UInt8.ofNat (0xF0 + n / 0x40000), UInt8.ofNat (0x80 + n / 0x1000 % 0x40),
      UInt8.ofNat (0x80 + n / 0x40 % 0x40), UInt8.ofNat (0x80 + n % 0x40)]

def unitBytes (bigEndian : Bool) (u : Nat) : Bytes :=
  if bigEndian then [UInt8.ofNat (u / 0x100), UInt8.ofNat (u % 0x100)]
  else [UInt8.ofNat (u % 0x100), UInt8.ofNat (u / 0x100)]

def encodePoint (encoding : Encoding) (c : CodePoint) : Option Bytes :=
  match encoding with
  | utf8 => if c.isSurrogate then (escapedByte? c).map ([·]) else some (utf8Bytes c)
  | latin1 => if c.val < 0x100 then some [UInt8.ofNat c.val] else (escapedByte? c).map ([·])
  | ascii => if c.val < 0x80 then some [UInt8.ofNat c.val] else (escapedByte? c).map ([·])
  | utf16le => utf16 false
  | utf16be => utf16 true
where
  utf16 (bigEndian : Bool) : Option Bytes :=
    if c.isSurrogate then none
    else if c.val < 0x10000 then some (unitBytes bigEndian c.val)
    else
      let n := c.val - 0x10000
      some (unitBytes bigEndian (0xD800 + n / 0x400) ++ unitBytes bigEndian (0xDC00 + n % 0x400))

/-- The bytes of a text, if the encoding can write all of its code points. -/
def encode (encoding : Encoding) : Text → Option Bytes
  | [] => some []
  | c :: t =>
    match encodePoint encoding c, encode encoding t with
    | some bs, some rest => some (bs ++ rest)
    | _, _ => none

/-- What a name is compared by; everything else only separates its parts. -/
def isNamePart (c : CodePoint) : Bool := c.isLetter || c.isDigit || c = CodePoint.ofChar '.'

/-- A name without regard to case and to how its parts are separated: letters, digits and points
stay, and what stands between two runs of them becomes one underscore. -/
def normalizedName : Bool → Text → Text
  | _, [] => []
  | gap, c :: t =>
    if isNamePart c then
      if gap then CodePoint.ofChar '_' :: c.toLower :: normalizedName false t
      else c.toLower :: normalizedName false t
    else normalizedName true t

def name : Encoding → Text
  | utf8 => "utf_8"
  | latin1 => "latin_1"
  | ascii => "ascii"
  | utf16le => "utf_16_le"
  | utf16be => "utf_16_be"

def aliases : Encoding → List Text
  | utf8 => ["u8", "utf", "utf8", "utf8_ucs2", "utf8_ucs4", "cp65001"]
  | latin1 => ["8859", "cp819", "csisolatin1", "ibm819", "iso8859", "iso8859_1", "iso_8859_1",
      "iso_8859_1_1987", "iso_ir_100", "l1", "latin", "latin1"]
  | ascii => ["646", "ansi_x3.4_1968", "ansi_x3_4_1968", "ansi_x3.4_1986", "cp367", "csascii",
      "ibm367", "iso646_us", "iso_646.irv_1991", "iso_ir_6", "us", "us_ascii"]
  | utf16le => ["unicodelittleunmarked", "utf_16le"]
  | utf16be => ["unicodebigunmarked", "utf_16be"]

def all : List Encoding := [utf8, latin1, ascii, utf16le, utf16be]

/-- The encoding of a name in any of its spellings. In an alias a point counts as an underscore. -/
def ofName? (text : Text) : Option Encoding :=
  let key := normalizedName false (text.dropWhile fun c => !isNamePart c)
  let plain := key.map fun c => if c = CodePoint.ofChar '.' then CodePoint.ofChar '_' else c
  all.find? fun e => name e == key || (aliases e).contains key || (aliases e).contains plain

end Encoding

end RecordWire
