import RecordWire.Layout.Defaults
import RecordWire.Value.Compare

/-!
Records as objects. A record that is part of other records is one object: a change to it shows in all
of them. What a record holds is kept in a cell under the number of the object, and records in cells
are only referred to by their numbers. The view of an object has in the place of each reference the
view of the object that it stands for; an object that contains itself has none.
-/

namespace RecordWire

namespace Value

def reference (type : RecordType) (object : Nat) : Value :=
  record { type := type, object := object } []

mutual

/-- The value with every reference replaced by what is found for it, if something is found for all
of them. -/
def expand (find? : Nat → Option Value) : Value → Option Value
  | atom a => some (atom a)
  | list items => (expandAll find? items).map list
  | tuple items => (expandAll find? items).map tuple
  | dict entries => (expandEntries find? entries).map dict
  | record head _ => find? head.object

def expandAll (find? : Nat → Option Value) : List Value → Option (List Value)
  | [] => some []
  | v :: vs =>
    match expand find? v with
    | Option.none => Option.none
    | some w => (expandAll find? vs).map (w :: ·)

def expandEntries (find? : Nat → Option Value) :
    List (Value × Value) → Option (List (Value × Value))
  | [] => some []
  | (k, v) :: es =>
    match expand find? k, expand find? v with
    | some k, some w => (expandEntries find? es).map ((k, w) :: ·)
    | _, _ => Option.none

end

mutual

/-- The value with new records in the place of those in it. Numbers stay the same objects. -/
def renewed : Value → Value
  | atom a => atom a
  | list items => list (renewedAll items)
  | tuple items => tuple (renewedAll items)
  | dict entries => dict (renewedEntries entries)
  | record ⟨type, _, others⟩ fields => record ⟨type, 0, others⟩ (renewedAll fields)

def renewedAll : List Value → List Value
  | [] => []
  | v :: vs => renewed v :: renewedAll vs

def renewedEntries : List (Value × Value) → List (Value × Value)
  | [] => []
  | (k, v) :: es => (renewed k, renewed v) :: renewedEntries es

end

end Value

/-- What an object holds. -/
structure Cell where
  type : RecordType
  others : List (Text × Value)
  fields : List Value

namespace Cell

/-- What the record with the contents of the cell is besides the values of its fields. -/
def head (c : Cell) (object : Nat) : RecordHead Value := ⟨c.type, object, c.others⟩

def member? (c : Cell) (name : Text) : Option Value :=
  ((c.type.fieldNames.zip c.fields).lookup name).or (c.others.lookup name)

/-- The cell with another value under a name, which may be that of no field. -/
def set (c : Cell) (name : Text) (v : Value) : Cell :=
  if c.type.fieldNames.contains name then
    { c with
      fields := (c.type.fieldNames.zip c.fields).map fun (n, old) => if n = name then v else old }
  else { c with others := (name, v) :: c.others.filter fun p => p.1 ≠ name }

end Cell

/-- The cells of objects by number; the numbers from the next one on are free. -/
structure Objects where
  next : Nat := 1
  cells : List (Nat × Cell) := []

namespace Objects

def fresh : StateM Objects Nat :=
  modifyGet fun o => (o.next, { o with next := o.next + 1 })

def put (o : Objects) (object : Nat) (c : Cell) : Objects :=
  { o with cells := (object, c) :: o.cells.filter fun p => p.1 ≠ object }

/-- A number that is none gets a number as an object, if it has none yet. -/
def absorbAtom (a : Atom) : StateM Objects Atom :=
  match a with
  | .float x object => do
    if x.isNaN && object == 0 then return .float x (← fresh) else return .float x object
  | a => pure a

mutual

/-- The value with references in the place of records. Records that are no objects yet become
objects. -/
def absorb : Value → StateM Objects Value
  | .atom a => do return .atom (← absorbAtom a)
  | .list items => do return .list (← absorbAll items)
  | .tuple items => do return .tuple (← absorbAll items)
  | .dict entries => do return .dict (← absorbEntries entries)
  | .record ⟨type, object, others⟩ fields => do
    if object ≠ 0 then return .reference type object
    let others ← absorbOthers others
    let fields ← absorbAll fields
    let object ← fresh
    modify fun o => o.put object ⟨type, others, fields⟩
    return .reference type object

def absorbAll : List Value → StateM Objects (List Value)
  | [] => pure []
  | v :: vs => do
    let w ← absorb v
    let ws ← absorbAll vs
    return w :: ws

def absorbEntries : List (Value × Value) → StateM Objects (List (Value × Value))
  | [] => pure []
  | (k, v) :: es => do
    let k ← absorb k
    let w ← absorb v
    let es ← absorbEntries es
    return (k, w) :: es

def absorbOthers : List (Text × Value) → StateM Objects (List (Text × Value))
  | [] => pure []
  | (name, v) :: others => do
    let w ← absorb v
    let others ← absorbOthers others
    return (name, w) :: others

end

/-- The record type with references in the default values of its fields. -/
def absorbType (type : RecordType) : StateM Objects RecordType := do
  let fields ← type.fields.mapM fun f => do
    match f.default? with
    | none => return f
    | some v => return ⟨f.name, f.layout, some (← absorb v)⟩
  return { type with fields := fields }

/-- What was set on a record that is no field. Only the name of the type is looked into. -/
def expandOthers (find? : Nat → Option Value) :
    List (Text × Value) → Option (List (Text × Value))
  | [] => some []
  | (name, v) :: others =>
    match if name = Operation.typeNameMember then v.expand find? else some v with
    | none => none
    | some w => (expandOthers find? others).map ((name, w) :: ·)

def viewWithin (o : Objects) : (depth : Nat) → Nat → Option Value
  | 0, _ => none
  | depth + 1, object =>
    match o.cells.lookup object with
    | none => none
    | some c =>
      match expandOthers (o.viewWithin depth) c.others,
          Value.expandAll (o.viewWithin depth) c.fields with
      | some others, some fields => some (.record ⟨c.type, object, others⟩ fields)
      | _, _ => none

/-- The view of an object. One that is deeper than there are objects contains itself. -/
def view? (o : Objects) (object : Nat) : Option Value := o.viewWithin o.cells.length object

/-- A default value as it is for a new record: whatever is kept for it may change. -/
def renewDefault (o : Objects) (v : Value) : Value :=
  match v.expand o.view? with
  | some w => w.renewed
  | none => v

def renewType (o : Objects) (type : RecordType) : RecordType := type.mapDefaults o.renewDefault

end Objects

end RecordWire
