import RecordWire.Codec.Collect
import RecordWire.Value.Parts
import RecordWire.Wire.Output
import RecordWire.Wire.Source

/-!
Raw writes and reads: single values of a wire format, without the checks that a layout makes.
-/

namespace RecordWire

inductive RawFormat
  | int (kind : IntKind)
  | float
  | double
  | bool
  /-- A length or count in front of something else. -/
  | count
  | bytes
  deriving DecidableEq, Repr

namespace RawFormat

def name : RawFormat → Text
  | int kind => kind.name
  | float => "float"
  | double => "double"
  | bool => "bool"
  | count => "count"
  | bytes => "bytes"

def all : List RawFormat := IntKind.all.map int ++ [float, double, bool, count, bytes]

def ofName? (t : Text) : Option RawFormat := all.find? fun f => f.name == t

def byte (v : Value) : Except WireError UInt8 :=
  match v.toInt? with
  | none => .error (.fault .unsupported)
  | some n =>
    if IntKind.uint8.holds n then .ok (UInt8.ofNat n.toNat) else .error (.fault .wrongParts)

/-- Bytes as they are. Where it is allowed, anything with numbers for its parts is taken too. -/
def writeBytes (fromNumbers : Bool) (v : Value) : Output :=
  match v with
  | .atom (.bytes bs) | .atom (.byteArray bs) => .chunk bs
  | v =>
    match v.parts? with
    | none => .fail (.fault .unsupported)
    | some parts =>
      if fromNumbers then
        match collect (parts.map byte) with
        | .ok bs => .chunk bs
        | .error e => .fail e
      else .fail (.fault .unsupported)

def write (order : ByteOrder) (fromNumbers : Bool) : RawFormat → Value → Output
  | int kind, v => Output.rawInt order kind v
  | float, v => Output.rawSingle order v
  | double, v => Output.rawDouble order v
  | bool, v => Output.rawBool v
  | count, v => Output.rawInt order .uint32 v
  | bytes, v => writeBytes fromNumbers v

def read (order : ByteOrder) (size : Int) : RawFormat → Reader Value
  | int kind => do return .int (← Reader.int order kind)
  | float => do return .float (← Reader.single order)
  | double => do return .float (← Reader.double order)
  | bool => do return .bool (← Reader.bool order)
  | count => do return .int (← Reader.count order)
  | bytes => do return .bytes (← Reader.bytes size)

end RawFormat

end RecordWire
