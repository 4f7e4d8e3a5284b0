import RecordWire.Layout.Primitive

/-!
Wire layouts. A layout says which bytes a field of a record takes: a primitive, a list with its
count in front, a map with its count in front, or the fields of a record one after the other.
Map keys are primitives. Layouts are parametric in the type of the default values that the fields
of a record carry.
-/

namespace RecordWire

/-- What tells record types apart: where the type comes from, and its name there. Two types of one
name are different types if they come from different places. -/
structure TypeId where
  origin : Nat
  name : Text
  deriving DecidableEq

mutual

/-- The wire layout of a value. -/
inductive Layout (δ : Type) where
  | primitive (p : Primitive)
  /-- A colour of five, six and five bits in one unsigned 16-bit word. -/
  | rgb565
  | list (element : Layout δ)
  | map (key : Primitive) (value : Layout δ)
  | record (type : RecordLayout δ)

/-- A record type: its fields follow each other on the wire, those of its base first. -/
structure RecordLayout (δ : Type) where
  id : TypeId
  /-- The name that the type was declared with. -/
  className : Text
  /-- The name that the type goes by, qualified if it comes from a schema. -/
  typeName : Text
  /-- The types that this type extends, nearest first. -/
  bases : List TypeId
  fields : List (FieldLayout δ)

/-- A field of a record type. -/
structure FieldLayout (δ : Type) where
  name : Text
  layout : Layout δ
  default? : Option δ

end

variable {δ : Type}

/-- The name of a layout, which is a type expression of the schema language. -/
def Layout.name : Layout δ → Text
  | .primitive p => p.name
  | .rgb565 => "rgb565"
  | .list element => "list[" ++ element.name ++ "]"
  | .map key value => "map[" ++ key.name ++ ", " ++ value.name ++ "]"
  | .record type => type.typeName

mutual

/-- The size of the shortest encoding. -/
def Layout.minSize : Layout δ → Nat
  | .primitive p => p.minSize
  | .rgb565 => 0
  | .list _ => Primitive.countSize
  | .map _ _ => Primitive.countSize
  | .record type => type.minSize

def RecordLayout.minSize : RecordLayout δ → Nat
  | ⟨_, _, _, _, fields⟩ => Layout.minSizes fields

def Layout.minSizes : List (FieldLayout δ) → Nat
  | [] => 0
  | ⟨_, layout, _⟩ :: fields => layout.minSize + Layout.minSizes fields

end

namespace RecordLayout

def fieldNames (type : RecordLayout δ) : List Text := type.fields.map (·.name)

/-- Whether the records of a type count as records of another. -/
def isKindOf (type other : RecordLayout δ) : Bool :=
  type.id == other.id || type.bases.contains other.id

end RecordLayout

end RecordWire
