import RecordWire.Wire.Output

/-!
Where bytes are written. A sink takes them in chunk by chunk and may fail, which ends the writing. A
buffer takes any bytes. A writer hands its chunks on to a stream, which may have no room for one of
them, and counts the bytes that the stream took.
-/

namespace RecordWire

/-- What takes a chunk in, or fails. -/
abbrev ByteSink (σ : Type) := Bytes → EStateM WireError σ Unit

/-- The state that a run ends in, whether it fails or not. -/
def endState {ε σ α : Type} : EStateM.Result ε σ α → σ
  | .ok _ s | .error _ s => s

def failure? {ε σ α : Type} : EStateM.Result ε σ α → Option ε
  | .ok _ _ => none
  | .error e _ => some e

/-- A stream that is written to, and the number of bytes that it took from the writer. -/
structure Writer where
  stream : Sink := {}
  count : Nat := 0

namespace Writer

/-- Hands on chunks up to the first that there is no room for. The flag says that all were taken. -/
def handOn (w : Writer) : List Bytes → Writer × Bool
  | [] => (w, true)
  | c :: cs =>
    match w.stream.takeChunks [c] with
    | (stream, true) => handOn ⟨stream, w.count + c.length⟩ cs
    | (stream, false) => (⟨stream, w.count⟩, false)

/-- Writes an output. A full stream is the error then, and else that of the output. -/
def write (w : Writer) (output : Output) : Writer × Option WireError :=
  match w.handOn output.chunks with
  | (w, true) => (w, output.error?)
  | (w, false) => (w, some (.fault .streamFull))

end Writer

namespace ByteSink

def buffer : ByteSink Bytes := fun bs => modify (· ++ bs)

/-- Hands a chunk on, and then counts it. What the stream fails by is passed on. -/
def writer : ByteSink Writer := fun bs => do
  let (stream, taken) := (← get).stream.takeChunks [bs]
  modify fun w => { w with stream }
  if taken then modify fun w => { w with count := w.count + bs.length }
  else throw (.fault .streamFull)

variable {σ : Type} (sink : ByteSink σ) (order : ByteOrder)

def putInt (kind : IntKind) (v : Value) : EStateM WireError σ Unit :=
  match v.toInt? with
  | some n =>
    if kind.holds n then sink (Output.intBytes order kind n)
    else throw (.invalid (.unpackable v kind.letter))
  | none => throw (.invalid (.unpackable v kind.letter))

def putDouble (v : Value) : EStateM WireError σ Unit :=
  match Output.nearestDouble? v with
  | some x => sink (Output.doubleBytes order x)
  | none => throw (.invalid (.unpackable v 'd'))

def putSingle (v : Value) : EStateM WireError σ Unit :=
  match (Output.nearestDouble? v).bind Binary64.toSingle? with
  | some bits => sink (Output.singleBytes order bits)
  | none => throw (.invalid (.unpackable v 'f'))

def putBool (b : Bool) : EStateM WireError σ Unit := sink [if b then 1 else 0]

def putCount (n : Nat) : EStateM WireError σ Unit := sink.putInt order .uint32 (.int n)

/-- Writing one thing after the other, up to the first that fails. -/
def inTurn : List (EStateM WireError σ Unit) → EStateM WireError σ Unit
  | [] => pure ()
  | x :: xs => do
    x
    inTurn xs

end ByteSink

end RecordWire
