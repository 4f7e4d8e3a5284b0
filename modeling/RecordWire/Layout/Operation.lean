import RecordWire.Codec.Fault
import RecordWire.Layout.Basic

/-!
The operations that records have, by name. A field of the same name hides an operation: under the name
there is then the value of the field, and nothing can be done with it. Operations with two underscores
in front of their names are asked for by the language itself, when a record is made or when it is asked
whether a value is a record of a type; some names it looks for when the type itself is made.
-/

namespace RecordWire

inductive Operation
  | encodedSize | fields | fromBytes | fromDict | minEncodedSize | readData | toBytes | toDict
  | writeData
  | allocate | setUp | setMember | getMember
  | subclassCheck | subclassHook | subclasses
  deriving DecidableEq, Repr

namespace Operation

def name : Operation → Text
  | encodedSize => "encoded_size"
  | fields => "fields"
  | fromBytes => "from_bytes"
  | fromDict => "from_dict"
  | minEncodedSize => "min_encoded_size"
  | readData => "read_data"
  | toBytes => "to_bytes"
  | toDict => "to_dict"
  | writeData => "write_data"
  | allocate => "__new__"
  | setUp => "__init__"
  | setMember => "__setattr__"
  | getMember => "__getattribute__"
  | subclassCheck => "__subclasscheck__"
  | subclassHook => "__subclasshook__"
  | subclasses => "__subclasses__"

/-- The operations that are asked for by the library only. -/
def own : List Operation :=
  [encodedSize, fields, fromBytes, fromDict, minEncodedSize, readData, toBytes, toDict, writeData]

def ofMaking : List Operation := [allocate, setUp, setMember, getMember]

/-- The operations that it takes to find out whether a value of another type is a record of a type. -/
def ofTesting : List Operation := [subclassCheck, subclassHook, subclasses]

def typeNameMember : Text := "type_name"

def fieldsMember : Text := "_fields"

def classMember : Text := "__class__"

/-- The name under which a new type says which members its values have. -/
def slotsMember : Text := "__slots__"

def placeMember : Text := "__qualname__"

def descriptionMember : Text := "__doc__"

/-- The name under which a new type is told to its own operations. -/
def cellMember : Text := "__classcell__"

/-- The name of the operation of a type that is asked for when another is declared on top of it. -/
def extensionMember : Text := "__init_subclass__"

end Operation

variable {δ : Type}

/-- Whether a field of the type hides an operation. -/
def RecordLayout.hides (type : RecordLayout δ) (operation : Operation) : Bool :=
  type.fieldNames.contains operation.name

mutual

/-- Whether the size of the shortest encoding can be asked for: no record that is part of every
encoding hides it. -/
def Layout.isSized : Layout δ → Bool
  | .record type => type.isSized
  | _ => true

/-- Whether the size of the shortest encoding of a record can be asked for. -/
def RecordLayout.isSized : RecordLayout δ → Bool
  | ⟨id, className, typeName, bases, fields⟩ =>
    !(RecordLayout.mk id className typeName bases fields).hides .minEncodedSize &&
      Layout.areSized fields

def Layout.areSized : List (FieldLayout δ) → Bool
  | [] => true
  | ⟨_, layout, _⟩ :: fields => layout.isSized && Layout.areSized fields

end

/-- Whether records of the type can be made at all: no field hides an operation of making. -/
def RecordLayout.isConstructible (type : RecordLayout δ) : Bool :=
  Operation.ofMaking.all fun operation => !type.hides operation

mutual

def Layout.isInstantiable : Layout δ → Bool
  | .record type => type.isInstantiable
  | _ => true

/-- Whether the record of defaults can be made, with all the records among the defaults. -/
def RecordLayout.isInstantiable : RecordLayout δ → Bool
  | ⟨id, className, typeName, bases, fields⟩ =>
    (RecordLayout.mk id className typeName bases fields).isConstructible &&
      Layout.areInstantiable fields

def Layout.areInstantiable : List (FieldLayout δ) → Bool
  | [] => true
  | ⟨_, layout, default?⟩ :: fields =>
    (default?.isSome || layout.isInstantiable) && Layout.areInstantiable fields

end

namespace RecordLayout

/-- Why no type can be made with a name, with fields of some names, and with a description: a field is
taken for something else, or a text cannot be encoded. -/
def refusal? (name : Text) (members : List Text) (description : Text) : Option Fault :=
  if members.contains Operation.slotsMember then some .unsupported
  else if name.hasSurrogate then some .unencodable
  else if name.contains 0 then some .badText
  else if members.contains Operation.placeMember then some .unsupported
  else if description.hasSurrogate && !members.contains Operation.descriptionMember then
    some .unencodable
  else if members.contains Operation.cellMember then some .unsupported
  else none

/-- Whether a record can be made with values for some fields, and defaults for all others. -/
def canMake (type : RecordLayout δ) (given : List Text) : Bool :=
  type.isConstructible && type.fields.all fun f =>
    given.contains f.name || f.default?.isSome || f.layout.isInstantiable

/-- Whether reading can make a record of the type and have it read itself. -/
def isFillable (type : RecordLayout δ) : Bool := type.isInstantiable && !type.hides .readData

/-- Whether a field hides which type a record is of, so that it cannot be told from other values. -/
def hidesClass (type : RecordLayout δ) : Bool := type.fieldNames.contains Operation.classMember

/-- Whether the service takes and returns records of the type: one can be made, and be told from other
values. -/
def isServed (type : RecordLayout δ) : Bool := type.isInstantiable && !type.hidesClass

/-- Whether it can be found out of every value whether it is a record of the type. -/
def isTestable (type : RecordLayout δ) : Bool :=
  Operation.ofTesting.all fun operation => !type.hides operation

end RecordLayout

end RecordWire
