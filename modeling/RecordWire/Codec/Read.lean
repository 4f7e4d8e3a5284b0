import RecordWire.Value.Compare
import RecordWire.Wire.Source

/-!
Reading values. Reading follows the layout; what is in a value tells nothing about where it ends.
Map entries are put in one after the other, so an equal key keeps the value of its last entry. Reading
uses operations of the record types in a layout, and fails where one of them is hidden.
-/

namespace RecordWire

variable {ε : Type} [TextEncoding ε]

namespace Primitive

def read (config : ConfigOf ε) : Primitive → Reader Value
  | int kind => do return .int (← Reader.int config.byteOrder kind)
  | float => do return .float (← Reader.single config.byteOrder)
  | double => do return .float (← Reader.double config.byteOrder)
  | bool => do return .bool (← Reader.bool config.byteOrder)
  | char => do
    let n ← Reader.int config.byteOrder .uint8
    return .text [CodePoint.ofNat n.toNat]
  | string => do
    let length ← Reader.count config.byteOrder
    Reader.checkFits config length .stringLength
    let bs ← Reader.bytes length
    match TextEncoding.decode config.encoding bs with
    | .ok t => return .text t
    | .error why => throw (.fault why)

end Primitive

def readColour (order : ByteOrder) : Reader Value := do
  let n ← Reader.int order .uint16
  let word := n.toNat
  return .tuple [.int (word / 2 ^ 11 : Nat), .int (word / 2 ^ 5 % 2 ^ 6 : Nat),
    .int (word % 2 ^ 5 : Nat)]

def readItems {α : Type} (item : Reader α) : Nat → Reader (List α)
  | 0 => pure []
  | n + 1 => do
    let x ← item
    let xs ← readItems item n
    return x :: xs

/-- Reads a number of entries and puts them in one after the other. -/
def readEntries (key value : Reader Value) :
    Nat → List (Value × Value) → Reader (List (Value × Value))
  | 0, entries => pure entries
  | n + 1, entries => do
    let k ← key
    let v ← value
    readEntries key value n (Value.assign k v entries)

def Reader.unless (hidden : Bool) : Reader Unit :=
  if hidden then throw (.fault .unsupported) else pure ()

mutual

/-- Reads a value with a layout. -/
def Layout.read (config : ConfigOf ε) : Codec → Reader Value
  | .primitive p => p.read config
  | .rgb565 => readColour config.byteOrder
  | .list element => do
    let count ← Reader.count config.byteOrder
    Reader.unless (!element.isSized)
    Reader.checkFits config (count * element.minSize) .listCount
    return .list (← readItems (element.read config) count)
  | .map key value => do
    let count ← Reader.count config.byteOrder
    Reader.unless (!value.isSized)
    Reader.checkFits config (count * (key.minSize + value.minSize)) .mapCount
    return .dict (← readEntries (key.read config) (value.read config) count [])
  | .record type => do
    Reader.unless (!type.isFillable)
    type.read config

def RecordLayout.read (config : ConfigOf ε) : RecordType → Reader Value
  | ⟨id, className, typeName, bases, fields⟩ => do
    let type : RecordType := ⟨id, className, typeName, bases, fields⟩
    Reader.unless (type.hides .fields)
    return .newRecord type (← readFields config fields)

def readFields (config : ConfigOf ε) : List Field → Reader (List Value)
  | [] => pure []
  | ⟨_, layout, _⟩ :: fields => do
    let v ← layout.read config
    let vs ← readFields config fields
    return v :: vs

end

/-- The values of fields after reading over the values that they had, up to the first error. -/
def overwriteFields (config : ConfigOf ε) :
    List Field → List Value → Source → List Value × Option WireError × Source
  | field :: fields, old :: olds, source =>
    match field.layout.read config source with
    | .ok v source =>
      let (vs, rest) := overwriteFields config fields olds source
      (v :: vs, rest)
    | .error e source => (old :: olds, some e, source)
  | _, olds, source => (olds, none, source)

def RecordHead.overwrite (config : ConfigOf ε) (head : RecordHead Value) (fields : List Value)
    (source : Source) : List Value × Option WireError × Source :=
  if head.hides .fields then (fields, some (.fault .unsupported), source)
  else overwriteFields config head.type.fields fields source

/-- Makes a new record of a type and reads its fields. -/
def RecordLayout.readNew (config : ConfigOf ε) (type : RecordType) : Reader Value := do
  Reader.unless (!type.isInstantiable)
  type.read config

/-- Reads a record from bytes that hold nothing else, which is checked in strict mode only. -/
def RecordLayout.readWhole (config : ConfigOf ε) (type : RecordType) : Reader Value := do
  let record ← type.readNew config
  Reader.ensureConsumed config
  return record

end RecordWire
