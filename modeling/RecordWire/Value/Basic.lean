import RecordWire.Calendar.Moment
import RecordWire.Layout.Operation
import RecordWire.Number.Binary64
import RecordWire.Text.Quoted

/-!
Dynamic values: what a field of a record may be given and what decoding returns. Atoms have no
parts that are values of other kinds; lists, tuples, dictionaries and records do. A record carries
its type, and one value for each field of the type.

Two values may be one object, which matters where values are compared. Of the objects only records
and the numbers that are none are told apart: equal numbers of objects, other than zero, are one
object. A value with the number zero is an object of its own.
-/

namespace RecordWire

inductive Atom
  | none
  | bool (b : Bool)
  | int (n : Int)
  | float (x : Binary64) (object : Nat)
  | text (t : Text)
  | bytes (bs : Bytes)
  /-- Bytes that can be changed in place, and so cannot be a key. -/
  | byteArray (bs : Bytes)
  | date (d : Date)
  | moment (m : Moment)
  deriving DecidableEq

/-- What a record is besides the values of its fields. -/
structure RecordHead (δ : Type) where
  type : RecordLayout δ
  object : Nat := 0
  /-- What was set on the record that is no field, by name. -/
  others : List (Text × δ) := []

namespace RecordHead

variable {δ : Type}

/-- Whether a field, or something else that was set on the record, hides an operation. -/
def hides (head : RecordHead δ) (operation : Operation) : Bool :=
  head.type.hides operation || head.others.any fun p => p.1 == operation.name

end RecordHead

inductive Value where
  | atom (a : Atom)
  | list (items : List Value)
  | tuple (items : List Value)
  /-- The entries in the order in which their keys came in. -/
  | dict (entries : List (Value × Value))
  | record (head : RecordHead Value) (fields : List Value)

instance : Inhabited Value := ⟨.atom .none⟩

abbrev Codec := Layout Value
abbrev RecordType := RecordLayout Value
abbrev Field := FieldLayout Value

namespace Value

abbrev none : Value := .atom .none
abbrev bool (b : Bool) : Value := .atom (.bool b)
abbrev int (n : Int) : Value := .atom (.int n)
abbrev float (x : Binary64) : Value := .atom (.float x 0)
abbrev text (t : Text) : Value := .atom (.text t)
abbrev bytes (bs : Bytes) : Value := .atom (.bytes bs)

abbrev newRecord (type : RecordType) (fields : List Value) : Value :=
  .record { type := type } fields

end Value

def Atom.kind : Atom → Text
  | none => "NoneType"
  | bool _ => "bool"
  | int _ => "int"
  | float _ _ => "float"
  | text _ => "str"
  | bytes _ => "bytes"
  | byteArray _ => "bytearray"
  | date _ => "date"
  | moment _ => "datetime"

/-- The name of the kind of a value; a record's is the name its type was declared with. -/
def Value.kind : Value → Text
  | atom a => a.kind
  | list _ => "list"
  | tuple _ => "tuple"
  | dict _ => "dict"
  | record head _ => head.type.className

def Atom.toInt? : Atom → Option Int
  | bool b => some (if b then 1 else 0)
  | int n => some n
  | _ => Option.none

def Value.toInt? : Value → Option Int
  | atom a => a.toInt?
  | _ => Option.none

/-- Nothing, false, zero and everything empty count as false, all else as true. -/
def Value.truth : Value → Bool
  | atom .none => false
  | atom (.bool b) => b
  | atom (.int n) => n ≠ 0
  | atom (.float x _) => x.word ≠ 0
  | atom (.text t) => !t.isEmpty
  | atom (.bytes bs) => !bs.isEmpty
  | atom (.byteArray bs) => !bs.isEmpty
  | atom (.date _) | atom (.moment _) => true
  | list items => !items.isEmpty
  | tuple items => !items.isEmpty
  | dict entries => !entries.isEmpty
  | record _ _ => true

end RecordWire
