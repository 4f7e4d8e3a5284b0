import RecordWire.Number.Power
import RecordWire.Text.Basic

/-!
The primitive kinds of field: integers of four widths, floating-point numbers of two, booleans,
characters and strings. All but strings have a fixed width.
-/

namespace RecordWire

inductive IntWidth
  | w8 | w16 | w32 | w64
  deriving DecidableEq, Repr

namespace IntWidth

def bytes : IntWidth → Nat
  | w8 => 1
  | w16 => 2
  | w32 => 4
  | w64 => 8

def bits (w : IntWidth) : Nat := 8 * w.bytes

end IntWidth

/-- A fixed-width integer kind. -/
structure IntKind where
  width : IntWidth
  signed : Bool
  deriving DecidableEq, Repr

namespace IntKind

def name (k : IntKind) : Text :=
  (if k.signed then "int" else "uint") ++ Text.ofNat k.width.bits

def low (k : IntKind) : Int := if k.signed then -(2 ^ (k.width.bits - 1)) else 0

def high (k : IntKind) : Int :=
  if k.signed then 2 ^ (k.width.bits - 1) - 1 else 2 ^ k.width.bits - 1

def holds (k : IntKind) (n : Int) : Bool := k.low ≤ n && n ≤ k.high

/-- The letter that stands for the kind in messages about raw writes. -/
def letter (k : IntKind) : CodePoint :=
  match k.width, k.signed with
  | .w8, true => 'b'
  | .w16, true => 'h'
  | .w32, true => 'i'
  | .w64, true => 'q'
  | .w8, false => 'B'
  | .w16, false => 'H'
  | .w32, false => 'I'
  | .w64, false => 'Q'

def uint8 : IntKind := ⟨.w8, false⟩
def uint16 : IntKind := ⟨.w16, false⟩
def uint32 : IntKind := ⟨.w32, false⟩

def all : List IntKind :=
  [⟨.w8, true⟩, ⟨.w16, true⟩, ⟨.w32, true⟩, ⟨.w64, true⟩, ⟨.w8, false⟩, ⟨.w16, false⟩,
    ⟨.w32, false⟩, ⟨.w64, false⟩]

end IntKind

inductive Primitive
  | int (kind : IntKind)
  | float
  | double
  | bool
  | char
  | string
  deriving DecidableEq, Repr

namespace Primitive

def name : Primitive → Text
  | int k => k.name
  | float => "float"
  | double => "double"
  | bool => "bool"
  | char => "char"
  | string => "string"

/-- The width of a length or count in front of a string, list or map. -/
def countSize : Nat := 4

/-- The width of a scalar, and for a string that of the shortest one. -/
def minSize : Primitive → Nat
  | int k => k.width.bytes
  | float => 4
  | double => 8
  | bool => 1
  | char => 1
  | string => countSize

def isScalar : Primitive → Bool
  | string => false
  | _ => true

def all : List Primitive := IntKind.all.map int ++ [float, double, bool, char, string]

end Primitive

/-- The names of primitives in schemas: one for each, and `byte` for a second name of `uint8`. -/
inductive PrimitiveName
  | proper (primitive : Primitive)
  | byte
  deriving DecidableEq, Repr

namespace PrimitiveName

def text : PrimitiveName → Text
  | proper p => p.name
  | byte => "byte"

def primitive : PrimitiveName → Primitive
  | proper p => p
  | byte => .int .uint8

def all : List PrimitiveName := byte :: Primitive.all.map proper

def ofText? (t : Text) : Option PrimitiveName := all.find? fun n => n.text == t

theorem text_of_ofText? {t : Text} {n : PrimitiveName} (h : ofText? t = some n) : n.text = t := by
  simpa using List.find?_some h

end PrimitiveName

end RecordWire
