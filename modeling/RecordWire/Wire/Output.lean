import RecordWire.Codec.Error
import RecordWire.Config.Basic
import RecordWire.Number.Octets

/-!
What writing produces: chunks of bytes, each handed to the stream whole, and possibly an error
after them. An output says nothing about where the chunks go; a sink takes them in.
-/

namespace RecordWire

structure Output where
  chunks : List Bytes
  error? : Option WireError

namespace Output

def empty : Output := ⟨[], none⟩

def chunk (bs : Bytes) : Output := ⟨[bs], none⟩

def fail (e : WireError) : Output := ⟨[], some e⟩

def invalid (why : InvalidValue) : Output := fail (.invalid why)

/-- One output and then another, which is left out if the first fails. -/
def append (a b : Output) : Output :=
  match a.error? with
  | some _ => a
  | none => ⟨a.chunks ++ b.chunks, b.error?⟩

instance : Append Output := ⟨append⟩

def concat : List Output → Output
  | [] => empty
  | a :: as => a ++ concat as

def bytes (a : Output) : Bytes := a.chunks.flatten

@[simp] theorem append_of_ok {cs : List Bytes} {b : Output} :
    (⟨cs, none⟩ : Output) ++ b = ⟨cs ++ b.chunks, b.error?⟩ := rfl

@[simp] theorem append_of_error {cs : List Bytes} {e : WireError} {b : Output} :
    (⟨cs, some e⟩ : Output) ++ b = ⟨cs, some e⟩ := rfl

@[simp] theorem append_empty (a : Output) : a ++ empty = a := by
  obtain ⟨as, _ | ea⟩ := a <;> simp [empty]

/-- The bytes of an integer that its kind holds, in two's complement. -/
def intBytes (order : ByteOrder) (kind : IntKind) (n : Int) : Bytes :=
  order.arrange (Octets.ofNat kind.width.bytes (n % 2 ^ kind.width.bits).toNat)

def count (order : ByteOrder) (n : Nat) : Output :=
  if IntKind.uint32.holds n then chunk (intBytes order .uint32 n)
  else invalid (.unpackable (.int n) IntKind.uint32.letter)

def singleBytes (order : ByteOrder) (bits : UInt32) : Bytes :=
  order.arrange (Octets.ofNat 4 bits.toNat)

def doubleBytes (order : ByteOrder) (x : Binary64) : Bytes :=
  order.arrange (Octets.ofNat 8 x.bits.toNat)

/-- A raw write of an integer or boolean. -/
def rawInt (order : ByteOrder) (kind : IntKind) (v : Value) : Output :=
  match v.toInt? with
  | some n =>
    if kind.holds n then chunk (intBytes order kind n) else invalid (.unpackable v kind.letter)
  | none => invalid (.unpackable v kind.letter)

/-- The double precision number nearest to a number. -/
def nearestDouble? : Value → Option Binary64
  | .atom (.float x _) => some x
  | v => v.toInt?.bind Binary64.ofInt?

theorem nearestDouble?_of_toInt? {v : Value} {n : Int} (hv : v.toInt? = some n) :
    nearestDouble? v = Binary64.ofInt? n := by
  unfold nearestDouble?
  split
  · cases hv
  · rw [hv, Option.bind_some]

def rawDouble (order : ByteOrder) (v : Value) : Output :=
  match nearestDouble? v with
  | some x => chunk (doubleBytes order x)
  | none => invalid (.unpackable v 'd')

def rawSingle (order : ByteOrder) (v : Value) : Output :=
  match (nearestDouble? v).bind Binary64.toSingle? with
  | some bits => chunk (singleBytes order bits)
  | none => invalid (.unpackable v 'f')

def rawBool (v : Value) : Output := chunk [if v.truth then 1 else 0]

end Output

/-- A stream that takes a limited number of bytes, or any number of them. A write that it has no
room for fails and leaves nothing in it. -/
structure Sink where
  written : Bytes := []
  room? : Option Nat := none

namespace Sink

/-- Takes in chunks up to the first that there is no room for. The flag says that all were taken. -/
def takeChunks (sink : Sink) : List Bytes → Sink × Bool
  | [] => (sink, true)
  | c :: cs =>
    match sink.room? with
    | none => takeChunks { sink with written := sink.written ++ c } cs
    | some room =>
      if c.length ≤ room then
        takeChunks { written := sink.written ++ c, room? := some (room - c.length) } cs
      else (sink, false)

/-- Takes in an output. A full stream is the error then, and else that of the output. -/
def take (sink : Sink) (output : Output) : Sink × Option WireError :=
  match sink.takeChunks output.chunks with
  | (sink, true) => (sink, output.error?)
  | (sink, false) => (sink, some (.fault .streamFull))

end Sink

end RecordWire
