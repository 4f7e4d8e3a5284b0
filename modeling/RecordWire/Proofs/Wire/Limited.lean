import RecordWire.Proofs.Wire.Pouring

/-!
Writing to a stream that may be full. Whatever is written, the stream takes whole chunks from the
front, so it has either all bytes or a part of them from the front, and the writer has counted
what it has.
-/

namespace RecordWire

/-- A stream with room for a number of bytes takes chunks as long as they fit. The first that does
not is the first that is left. -/
theorem Writer.handOn_limited (written : Bytes) (room count : Nat) (cs : List Bytes) :
    ∃ taken left, cs = taken ++ left ∧ taken.flatten.length ≤ room ∧
      (∀ c ∈ left.head?, room < taken.flatten.length + c.length) ∧
      handOn ⟨⟨written, some room⟩, count⟩ cs =
        (⟨⟨written ++ taken.flatten, some (room - taken.flatten.length)⟩,
          count + taken.flatten.length⟩, left.isEmpty) := by
  induction cs generalizing written room count with
  | nil => exact ⟨[], [], by simp [handOn]⟩
  | cons c cs ih =>
    by_cases hc : c.length ≤ room
    · obtain ⟨taken, left, rfl, hroom, hfull, hrun⟩ :=
        ih (written ++ c) (room - c.length) (count + c.length)
      have hlength : (c :: taken).flatten.length = c.length + taken.flatten.length := by simp
      refine ⟨c :: taken, left, rfl, by omega, fun d hd => ?_, ?_⟩
      · have := hfull d hd
        omega
      · have hone : Sink.takeChunks ⟨written, some room⟩ [c] =
            (⟨written ++ c, some (room - c.length)⟩, true) := by
          simp [Sink.takeChunks, hc]
        rw [handOn, hone]
        dsimp only
        rw [hrun, hlength, Nat.sub_sub, Nat.add_assoc]
        simp
    · have hone : Sink.takeChunks ⟨written, some room⟩ [c] = (⟨written, some room⟩, false) := by
        simp [Sink.takeChunks, hc]
      refine ⟨[], c :: cs, rfl, by simp, ?_, ?_⟩
      · rintro d ⟨⟩
        simpa using hc
      · rw [handOn, hone]
        simp

/-- An output into a stream with room for a number of bytes: the stream has its first chunks, all of
them if there is room for their bytes, and else those before the first that does not fit. -/
theorem Writer.write_limited (room : Nat) (output : Output) :
    ∃ taken left, output.chunks = taken ++ left ∧
      write { stream := { room? := some room } } output =
        (⟨⟨taken.flatten, some (room - taken.flatten.length)⟩, taken.flatten.length⟩,
          if left = [] then output.error? else some (.fault .streamFull)) ∧
      (left = [] ↔ output.bytes.length ≤ room) ∧ taken.flatten.length ≤ room := by
  obtain ⟨taken, left, hchunks, hroom, hfull, hrun⟩ := handOn_limited [] room 0 output.chunks
  have hbytes : output.bytes.length = taken.flatten.length + left.flatten.length := by
    rw [Output.bytes, hchunks, List.flatten_append, List.length_append]
  refine ⟨taken, left, hchunks, ?_, ?_, hroom⟩
  · rw [write, hrun]
    cases left <;> simp
  · constructor
    · rintro rfl
      simpa [hbytes] using hroom
    · intro hle
      cases left with
      | nil => rfl
      | cons c cs =>
        have := hfull c rfl
        rw [hbytes, List.flatten_cons, List.length_append] at hle
        omega

theorem bind_run {σ : Type} (x y : EStateM WireError σ Unit) (s : σ) : (x >>= fun _ => y) s =
    match x s with
    | .ok _ s => y s
    | .error e s => .error e s := by
  simp only [bind, EStateM.bind]
  cases x s <;> rfl

namespace ByteSink

theorem inTurn_buffer (bs : Bytes) (cs : List Bytes) :
    inTurn (cs.map buffer) bs = .ok () (bs ++ cs.flatten) := by
  induction cs generalizing bs with
  | nil => simp [inTurn, pure, EStateM.pure]
  | cons c cs ih =>
    have hstep : inTurn ((c :: cs).map buffer) bs = inTurn (cs.map buffer) (bs ++ c) := rfl
    rw [hstep, ih, List.flatten_cons, List.append_assoc]

theorem writer_eq (c : Bytes) (w : Writer) : writer c w =
    match w.stream.takeChunks [c] with
    | (stream, true) => .ok () ⟨stream, w.count + c.length⟩
    | (stream, false) => .error (.fault .streamFull) ⟨stream, w.count⟩ := by
  have hrun : writer c w = (do
      modify fun w' : Writer => { w' with stream := (w.stream.takeChunks [c]).1 }
      if (w.stream.takeChunks [c]).2 then
        modify fun w' : Writer => { w' with count := w'.count + c.length }
      else throw (.fault .streamFull) : EStateM WireError Writer Unit) w := rfl
  rw [hrun]
  obtain ⟨stream, _ | _⟩ := w.stream.takeChunks [c] <;> rfl

theorem inTurn_writer (w : Writer) (cs : List Bytes) : inTurn (cs.map writer) w =
    match w.handOn cs with
    | (w, true) => .ok () w
    | (w, false) => .error (.fault .streamFull) w := by
  induction cs generalizing w with
  | nil => rfl
  | cons c cs ih =>
    rw [List.map_cons, inTurn, bind_run, writer_eq, Writer.handOn]
    obtain ⟨stream, _ | _⟩ := w.stream.takeChunks [c]
    · rfl
    · exact ih _

end ByteSink

namespace Output

theorem pour_run {σ : Type} (sink : ByteSink σ) (o : Output) (s : σ) : o.pour sink s =
    match ByteSink.inTurn (o.chunks.map sink) s, o.error? with
    | .ok _ s, none => .ok () s
    | .ok _ s, some e => .error e s
    | .error e s, _ => .error e s := by
  rw [pour, bind_run]
  cases ByteSink.inTurn (o.chunks.map sink) s with
  | error e s => cases o.error? <;> rfl
  | ok _ s => cases o.error? <;> rfl

theorem pour_buffer (o : Output) (bs : Bytes) :
    endState (o.pour ByteSink.buffer bs) = bs ++ o.bytes ∧
      failure? (o.pour ByteSink.buffer bs) = o.error? := by
  rw [pour_run, ByteSink.inTurn_buffer]
  cases o.error? <;> exact ⟨rfl, rfl⟩

theorem pour_writer (o : Output) (w : Writer) :
    (endState (o.pour ByteSink.writer w), failure? (o.pour ByteSink.writer w)) = w.write o := by
  rw [pour_run, ByteSink.inTurn_writer, Writer.write]
  obtain ⟨w', _ | _⟩ := w.handOn o.chunks
  · rfl
  · cases o.error? <;> rfl

end Output

/-- What is written with a layout goes to a stream with room for a number of bytes as it goes to a
buffer, if there is room for all of it. If not, the error of the stream is the outcome, and the stream
has bytes from the front only. The writer counts what the stream has. -/
theorem Layout.write_to_limited {ε : Type} [TextEncoding ε] (config : ConfigOf ε) (codec : Codec)
    (v : Value) (room : Nat) :
    let buffered := codec.emit ByteSink.buffer config v []
    let streamed := codec.emit ByteSink.writer config v { stream := { room? := some room } }
    let buffer := endState buffered
    let writer := endState streamed
    (buffer.length ≤ room →
      failure? streamed = failure? buffered ∧ writer.stream.written = buffer) ∧
    (room < buffer.length → failure? streamed = some (.fault .streamFull) ∧
      writer.stream.written <+: buffer ∧ writer.stream.written.length ≤ room) ∧
    writer.count = writer.stream.written.length := by
  intro buffered streamed buffer writer
  have hbuffer := Output.pour_buffer (codec.write config v) []
  have hwriter := Output.pour_writer (codec.write config v) { stream := { room? := some room } }
  rw [← emit_eq_pour] at hbuffer hwriter
  obtain ⟨taken, left, hchunks, hrun, hleft, hroom⟩ :=
    Writer.write_limited room (codec.write config v)
  rw [hrun] at hwriter
  have hwritten : buffer = (codec.write config v).bytes := hbuffer.1
  obtain ⟨hstate, hfailure⟩ := Prod.mk.inj hwriter
  change writer = _ at hstate
  change failure? streamed = _ at hfailure
  rw [hwritten, hstate, hfailure]
  refine ⟨fun hle => ?_, fun hlt => ?_, rfl⟩
  · obtain rfl := hleft.2 hle
    rw [List.append_nil] at hchunks
    exact ⟨(if_pos rfl).trans hbuffer.2.symm, by rw [Output.bytes, hchunks]⟩
  · have hne : left ≠ [] := fun h => Nat.not_le.2 hlt (hleft.1 h)
    refine ⟨if_neg hne, ?_, hroom⟩
    rw [Output.bytes, hchunks, List.flatten_append]
    exact List.prefix_append _ _

/-- The second item of a list cannot be written. A stream with room for what is in front of it fails by
that item, and one with less room before it comes to the item. -/
theorem Layout.write_to_limited_list :
    let codec : Codec := .list (.primitive (.int .uint8))
    let v : Value := .list [.int 1, .int 300]
    let config : Config := { byteOrder := .little }
    let streamed (room : Nat) :=
      codec.emit ByteSink.writer config v { stream := { room? := some room } }
    codec.emit ByteSink.buffer config v [] =
        .error (.invalid (.outOfRange .uint8 300)) [2, 0, 0, 0, 1] ∧
      (failure? (streamed 5) = some (.invalid (.outOfRange .uint8 300)) ∧
        (endState (streamed 5)).stream.written = [2, 0, 0, 0, 1] ∧
        (endState (streamed 5)).count = 5) ∧
      failure? (streamed 4) = some (.fault .streamFull) ∧
        (endState (streamed 4)).stream.written <+: [2, 0, 0, 0, 1] ∧
        (endState (streamed 4)).stream.written.length ≤ 4 := by
  intro codec v config streamed
  have hbuffered : codec.emit ByteSink.buffer config v [] =
      .error (.invalid (.outOfRange .uint8 300)) [2, 0, 0, 0, 1] := by
    have hwrite : codec.write config v =
        Output.count .little 2 ++ Output.concat ([.int 1, .int 300].map
          (Layout.write config (.primitive (.int .uint8)))) := write_list config _ v
    rw [emit_eq_pour, hwrite]
    simp only [List.map_cons, List.map_nil, write_primitive]
    rfl
  obtain ⟨hroom, -, hcount⟩ := Layout.write_to_limited config codec v 5
  obtain ⟨-, hfull, -⟩ := Layout.write_to_limited config codec v 4
  rw [hbuffered] at hroom hfull
  obtain ⟨hfailure, hwritten⟩ := hroom (by decide)
  refine ⟨hbuffered, ⟨hfailure, hwritten, ?_⟩, hfull (by decide)⟩
  rw [hcount, hwritten]
  rfl

end RecordWire
