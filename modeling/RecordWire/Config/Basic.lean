import RecordWire.Codec.Fault
import RecordWire.Text.Encoding

/-!
What writers and readers have to agree on: the byte order of multi-byte values and the encoding of
strings. Sorting map keys only concerns writing, and strict reading only what is rejected.
-/

namespace RecordWire

inductive ByteOrder
  | little
  | big
  /-- The order of the machine, which is little. -/
  | native
  deriving DecidableEq, Repr

namespace ByteOrder

def name : ByteOrder → Text
  | little => "little"
  | big => "big"
  | native => "native"

def letter : ByteOrder → Text
  | little => "<"
  | big => ">"
  | native => "="

def all : List ByteOrder := [little, big, native]

def ofName? (t : Text) : Option ByteOrder := all.find? fun o => o.name == t.toLower

/-- Bytes given least significant first, in this order. Applied twice it changes nothing. -/
def arrange : ByteOrder → Bytes → Bytes
  | big, bs => bs.reverse
  | _, bs => bs

@[simp] theorem arrange_arrange (o : ByteOrder) (bs : Bytes) : o.arrange (o.arrange bs) = bs := by
  cases o <;> simp [arrange]

@[simp] theorem length_arrange (o : ByteOrder) (bs : Bytes) :
    (o.arrange bs).length = bs.length := by
  cases o <;> simp [arrange]

end ByteOrder

/-- What strings can be encoded with. Both ways may fail by a fault of the encoding's own. -/
class TextEncoding (ε : Type) where
  encode : ε → Text → Except Fault Bytes
  decode : ε → Bytes → Except Fault Text
  /-- The encoding where none is named. -/
  standard : ε

@[default_instance]
instance Encoding.instTextEncoding : TextEncoding Encoding where
  encode encoding t :=
    match encoding.encode t with
    | some bs => .ok bs
    | none => .error .unencodable
  decode encoding bs :=
    match encoding.decode bs with
    | some t => .ok t
    | none => .error .undecodable
  standard := .utf8

namespace Encoding

variable {encoding : Encoding} {t : Text} {bs : Bytes} {why : Fault}

@[simp] theorem standard_eq : (TextEncoding.standard : Encoding) = utf8 := rfl

theorem encode_eq_ok : TextEncoding.encode encoding t = .ok bs ↔ encoding.encode t = some bs := by
  cases h : encoding.encode t <;> simp [TextEncoding.encode, h]

theorem encode_eq_error :
    TextEncoding.encode encoding t = .error why ↔ why = .unencodable ∧ encoding.encode t = none := by
  cases h : encoding.encode t <;> simp [TextEncoding.encode, h, eq_comm]

theorem decode_eq_ok : TextEncoding.decode encoding bs = .ok t ↔ encoding.decode bs = some t := by
  cases h : encoding.decode bs <;> simp [TextEncoding.decode, h]

theorem decode_eq_error :
    TextEncoding.decode encoding bs = .error why ↔
      why = .undecodable ∧ encoding.decode bs = none := by
  cases h : encoding.decode bs <;> simp [TextEncoding.decode, h, eq_comm]

end Encoding

/-- An encoding of texts by what it does. -/
structure TextCodec where
  encode : Text → Except Fault Bytes
  decode : Bytes → Except Fault Text

def Encoding.codec (encoding : Encoding) : TextCodec :=
  ⟨TextEncoding.encode encoding, TextEncoding.decode encoding⟩

instance TextCodec.instTextEncoding : TextEncoding TextCodec where
  encode := TextCodec.encode
  decode := TextCodec.decode
  standard := Encoding.utf8.codec

/-- A configuration, whose encoding is one of a kind. -/
structure ConfigOf (ε : Type) [TextEncoding ε] where
  byteOrder : ByteOrder := .little
  sortMapKeys : Bool := true
  strict : Bool := false
  encoding : ε := TextEncoding.standard

/-- A configuration with one of the encodings that are built in. -/
abbrev Config := ConfigOf Encoding

end RecordWire
