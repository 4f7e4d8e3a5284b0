import RecordWire.Codec.Error
import RecordWire.Config.Basic
import RecordWire.Number.Octets

/-!
Where bytes are read from: a buffer, or a stream that may return less than it was asked for and may
not know how much is left. A read of more than there is fails; a buffer stays where it was then,
while a stream has been read to its end.
-/

namespace RecordWire

/-- A stream of bytes with a position. -/
structure ByteStream where
  data : Bytes
  pos : Nat
  /-- How many bytes a single read at a position returns at most, when asked for some number. -/
  grant : Nat → Nat → Nat := fun _ asked => asked
  /-- Whether the stream knows where its end is. -/
  seekable : Bool := true

namespace ByteStream

def read (s : ByteStream) (asked : Nat) : Bytes × ByteStream :=
  let bs := (s.data.drop s.pos).take (min asked (s.grant s.pos asked))
  (bs, { s with pos := s.pos + bs.length })

/-- Reads until there is enough or a read returns nothing. -/
def gather (s : ByteStream) : (fuel missing : Nat) → Bytes × ByteStream
  | 0, _ => ([], s)
  | fuel + 1, missing =>
    if missing = 0 then ([], s)
    else
      let (bs, s) := s.read missing
      if bs.isEmpty then ([], s)
      else
        let (more, s) := s.gather fuel (missing - bs.length)
        (bs ++ more, s)

def readUpTo (s : ByteStream) (n : Nat) : Bytes × ByteStream :=
  s.gather (min n (s.data.length - s.pos) + 1) n

/-- The bytes between the position and the end, if the stream knows its end. -/
def remaining? (s : ByteStream) : Option Int :=
  if s.seekable then some (s.data.length - s.pos) else none

/-- Writes at the position, over what is there, with zeros up to it if the data ends before it. -/
def write (s : ByteStream) (bs : Bytes) : ByteStream :=
  let before := s.data.take s.pos
  { s with
    data := if bs.isEmpty then s.data
      else before ++ List.replicate (s.pos - before.length) 0 ++ bs ++ s.data.drop (s.pos + bs.length)
    pos := s.pos + bs.length }

end ByteStream

inductive Source
  | buffer (data : Bytes) (pos : Int)
  /-- A stream, and the number of bytes read from it so far. -/
  | stream (stream : ByteStream) (consumed : Nat)

namespace Source

def ofBytes (data : Bytes) : Source := .buffer data 0

def ofStream (s : ByteStream) : Source := .stream s 0

def position : Source → Int
  | buffer _ pos => pos
  | stream _ consumed => consumed

def remaining? : Source → Option Int
  | buffer data pos => some (data.length - pos)
  | stream s _ => s.remaining?

def streamOr (default : ByteStream) : Source → ByteStream
  | buffer _ _ => default
  | stream s _ => s

/-- The stretch between two places, which count from the end if they are negative. -/
def stretch (data : Bytes) (start stop : Int) : Bytes :=
  let place (i : Int) : Nat := ((if i < 0 then i + data.length else i)).toNat
  (data.take (place stop)).drop (place start)

end Source

/-- Reading: a result or an error, and in both cases the source after it. -/
abbrev Reader := EStateM WireError Source

namespace Reader

variable {ε : Type} [TextEncoding ε]

/-- Reads a number of bytes. A negative number takes a buffer back and reads nothing of a stream. -/
def bytes (size : Int) : Reader Bytes := fun source =>
  match source with
  | .buffer data pos =>
    let available : Int := data.length - pos
    if available < size then .error (.truncated size pos available false) source
    else .ok (Source.stretch data pos (pos + size)) (.buffer data (pos + size))
  | .stream s consumed =>
    let (bs, s) := s.readUpTo size.toNat
    let source := Source.stream s (consumed + bs.length)
    if bs.length < size then .error (.truncated size consumed bs.length true) source
    else .ok bs source

/-- Reads the bytes of a fixed-width value, least significant first. -/
def fixed (order : ByteOrder) (width : Nat) : Reader Bytes := do
  let bs ← bytes width
  if bs.length = width then pure (order.arrange bs) else throw (.fault .wrongWidth)

def int (order : ByteOrder) (kind : IntKind) : Reader Int := do
  let bs ← fixed order kind.width.bytes
  let n : Int := Octets.toNat bs
  pure (if kind.signed && 2 ^ (kind.width.bits - 1) ≤ n then n - 2 ^ kind.width.bits else n)

def single (order : ByteOrder) : Reader Binary64 := do
  let bs ← fixed order 4
  pure (Binary64.ofSingle (UInt32.ofNat (Octets.toNat bs)))

def double (order : ByteOrder) : Reader Binary64 := do
  let bs ← fixed order 8
  pure ⟨UInt64.ofNat (Octets.toNat bs)⟩

def bool (order : ByteOrder) : Reader Bool := do
  let bs ← fixed order 1
  pure (Octets.toNat bs ≠ 0)

def count (order : ByteOrder) : Reader Nat := do
  let bs ← fixed order Primitive.countSize
  pure (Octets.toNat bs)

/-- In strict mode, refuses a declared size that cannot fit into what is left, if that is known. -/
def checkFits (config : ConfigOf ε) (needed : Nat) (what : Declared) : Reader Unit := fun source =>
  if config.strict then
    match source.remaining? with
    | some remaining =>
      if remaining < needed then
        .error (.oversized what needed source.position remaining) source
      else .ok () source
    | none => .ok () source
  else .ok () source

/-- In strict mode, refuses input that goes on, if that is known. -/
def ensureConsumed (config : ConfigOf ε) : Reader Unit := fun source =>
  if config.strict then
    match source.remaining? with
    | some remaining =>
      if remaining = 0 then .ok () source else .error (.trailing remaining source.position) source
    | none => .ok () source
  else .ok () source

end Reader

end RecordWire
