import RecordWire.Value.Basic

/-!
Equality and order of values. Booleans, integers and floating-point numbers are one family and
compare by their exact numerical values; NaN equals nothing. Texts compare by code point, both kinds
of bytes by byte, lists and tuples by their first difference. Values of different families are not
equal and have no order.

The parts of lists, tuples and dictionaries are alike if they are one object or equal; a record
compares the values of its fields only. So a list with a NaN is equal to a list with the same NaN.
-/

namespace RecordWire

namespace Atom

def toBytes? : Atom → Option Bytes
  | bytes bs => some bs
  | byteArray bs => some bs
  | _ => Option.none

def equal (a b : Atom) : Bool :=
  match a, b with
  | none, none => true
  | float x _, float y _ => x.equal y
  | float x _, b => b.toInt?.any x.equalInt
  | a, float y _ => a.toInt?.any y.equalInt
  | text s, text t => s == t
  | date d, date e => d == e
  | moment m, moment n => m.equal n
  | a, b =>
    match a.toInt?, b.toInt? with
    | some m, some n => m == n
    | _, _ =>
      match a.toBytes?, b.toBytes? with
      | some s, some t => s == t
      | _, _ => false

def bytesBefore : Bytes → Bytes → Bool
  | [], [] => false
  | [], _ :: _ => true
  | _ :: _, [] => false
  | a :: s, b :: t => decide (a < b) || (a == b && bytesBefore s t)

/-- Whether an atom comes before another, if the two have an order. -/
def before? (a b : Atom) : Option Bool :=
  match a, b with
  | float x _, float y _ => some (x.less y)
  | float x _, b => b.toInt?.map x.lessInt
  | a, float y _ => a.toInt?.map fun n => Binary64.intLess n y
  | text s, text t => some (s.before t)
  | date d, date e => some (d.number < e.number)
  | moment m, moment n => m.before? n
  | a, b =>
    match a.toInt?, b.toInt? with
    | some m, some n => some (m < n)
    | _, _ =>
      match a.toBytes?, b.toBytes? with
      | some s, some t => some (bytesBefore s t)
      | _, _ => Option.none

def isKey : Atom → Bool
  | byteArray _ => false
  | _ => true

def same (a b : Atom) : Bool :=
  match a, b with
  | float _ m, float _ n => m != 0 && m == n
  | _, _ => false

end Atom

namespace Value

def same (v w : Value) : Bool :=
  match v, w with
  | atom a, atom b => a.same b
  | record s _, record t _ => s.object != 0 && s.object == t.object
  | _, _ => false

mutual

/-- Equality. Dictionaries are equal if they have equal entries in any order, records if they are
of one type and equal field by field. -/
def equal : Value → Value → Bool
  | atom a, atom b => a.equal b
  | list xs, list ys => alikeAll xs ys
  | tuple xs, tuple ys => alikeAll xs ys
  | dict es, dict fs => es.length == fs.length && alikeEntries es fs
  | record s xs, record t ys => s.type.id == t.type.id && equalAll xs ys
  | _, _ => false

def equalAll : List Value → List Value → Bool
  | [], [] => true
  | x :: xs, y :: ys => equal x y && equalAll xs ys
  | _, _ => false

def alikeAll : List Value → List Value → Bool
  | [], [] => true
  | x :: xs, y :: ys => (same x y || equal x y) && alikeAll xs ys
  | _, _ => false

/-- Whether every entry of the first list has an entry with a key and a value alike in the second. -/
def alikeEntries : List (Value × Value) → List (Value × Value) → Bool
  | [], _ => true
  | (k, v) :: es, fs =>
    fs.any (fun f => (same k f.1 || equal k f.1) && (same v f.2 || equal v f.2)) &&
      alikeEntries es fs

end

/-- Whether two values are one object or equal. -/
def alike (v w : Value) : Bool := same v w || equal v w

mutual

/-- Whether a value comes before another, if the two have an order. -/
def before? : Value → Value → Option Bool
  | atom a, atom b => a.before? b
  | list xs, list ys => allBefore? xs ys
  | tuple xs, tuple ys => allBefore? xs ys
  | _, _ => Option.none

def allBefore? : List Value → List Value → Option Bool
  | [], [] => some false
  | [], _ :: _ => some true
  | _ :: _, [] => some false
  | x :: xs, y :: ys => if alike x y then allBefore? xs ys else before? x y

end

mutual

def isKey : Value → Bool
  | atom a => a.isKey
  | tuple items => areKeys items
  | _ => false

def areKeys : List Value → Bool
  | [] => true
  | v :: vs => isKey v && areKeys vs

end

/-- The entries after an assignment: an equal key keeps its place and its spelling. -/
def assign (k v : Value) : List (Value × Value) → List (Value × Value)
  | [] => [(k, v)]
  | e :: es => if k.alike e.1 then (e.1, v) :: es else e :: assign k v es

def ofPairs (pairs : List (Value × Value)) : List (Value × Value) :=
  pairs.foldl (fun es p => assign p.1 p.2 es) []

def lookupText (name : Text) : List (Value × Value) → Option Value
  | [] => Option.none
  | (atom (.text t), v) :: es => if t = name then some v else lookupText name es
  | _ :: es => lookupText name es

end Value

end RecordWire
