import RecordWire.Codec.Read
import RecordWire.Codec.Size
import RecordWire.Log.Basic
import RecordWire.Value.Listing

/-!
Whole records to bytes and back, in memory or on a stream. Records of a stream follow each other
without anything between them.
-/

namespace RecordWire

variable {ε : Type} [TextEncoding ε]

namespace Value

def encode (config : ConfigOf ε) : Value → Output
  | record head fields =>
    if head.hides .fields then .fail (.fault .unsupported)
    else writeFields config head.type.fields fields
  | _ => .fail (.fault .noMember)

def encodedSize (encoding : ε) : Value → Except WireError Nat
  | record head fields =>
    if head.hides .encodedSize then .error (.fault .unsupported)
    else head.throughFields 0 (sizeOfFields encoding head.type.fields fields)
  | _ => .error (.fault .noMember)

/-- The bytes of a record, by its own operation. -/
def toBytes (config : ConfigOf ε) (v : Value) : Except WireError Bytes :=
  if v.hides .toBytes then .error (.fault .unsupported)
  else
    match (v.encode config).error? with
    | some e => .error e
    | .none => .ok (v.encode config).bytes

end Value

/-- The record of a type in bytes that hold nothing else, by the operation of the type. -/
def RecordLayout.fromBytes (config : ConfigOf ε) (type : RecordType) (data : Bytes) :
    Except WireError Value :=
  if type.hides .fromBytes then .error (.fault .unsupported)
  else
    match type.readWhole config (.ofBytes data) with
    | .ok v _ => .ok v
    | .error e _ => .error e

namespace Service

/-- The name that a value goes by that is a record and known as one. -/
def recordTitle (v : Value) : Except WireError Text :=
  match v with
  | .record head _ =>
    if head.type.hidesClass then .error (.fault .unsupported) else .ok (Value.titleOf head)
  | v => .error (.notSerializable v.kind)

/-- The bytes of a record. -/
def serialize (config : ConfigOf ε) (v : Value) : Logged WireError Bytes := do
  let title ← Logged.ofExcept (recordTitle v)
  let output := v.encode config
  match output.error? with
  | some e => throw e
  | none =>
    Logged.log .debug .serialization ("Serialized " ++ title ++ " into " ++
      Text.ofNat output.bytes.length ++ " bytes")
    return output.bytes

def deserialize (config : ConfigOf ε) (type : RecordType) (data : Bytes) : Logged WireError Value := do
  match type.readWhole config (.ofBytes data) with
  | .error e _ => throw e
  | .ok v source =>
    Logged.log .debug .serialization ("Deserialized " ++ type.typeName ++ " from " ++
      Text.ofInt source.position ++ " bytes")
    return v

def encodedSize (config : ConfigOf ε) (v : Value) : Except WireError Nat :=
  match recordTitle v with
  | .error e => .error e
  | .ok _ => v.encodedSize config.encoding

/-- The stream after a record was written to it, and the number of bytes of the record. -/
def write (config : ConfigOf ε) (stream : ByteStream) (v : Value) :
    ByteStream × Except WireError Nat :=
  match recordTitle v with
  | .error e => (stream, .error e)
  | .ok _ =>
    let output := v.encode config
    (output.chunks.foldl ByteStream.write stream,
      match output.error? with
      | some e => .error e
      | none => .ok output.bytes.length)

def read (config : ConfigOf ε) (type : RecordType) (stream : ByteStream) :
    Except WireError Value × ByteStream :=
  match type.readNew config (.ofStream stream) with
  | .ok v source => (.ok v, source.streamOr stream)
  | .error e source => (.error e, source.streamOr stream)

end Service

end RecordWire
