import RecordWire.Codec.Emit
import RecordWire.Proofs.Codec.Slots

/-!
Writing to a sink, and what is written. Whatever the sink is, writing a value to it hands over the
chunks of its output one by one, up to the first at which the sink fails, and fails afterwards as the
output does. Each way of writing has its lemma, and those for layouts follow writing into the value.
-/

namespace RecordWire

variable {ε σ : Type} [TextEncoding ε] {sink : ByteSink σ}

namespace Output

/-- Hands the chunks of an output to a sink, and fails then if the output does. -/
def pour (sink : ByteSink σ) (o : Output) : EStateM WireError σ Unit := do
  ByteSink.inTurn (o.chunks.map sink)
  match o.error? with
  | none => pure ()
  | some e => throw e

theorem throw_bind (e : WireError) (f : Unit → EStateM WireError σ Unit) :
    (throw e : EStateM WireError σ Unit) >>= f = throw e := rfl

theorem inTurn_append (xs ys : List (EStateM WireError σ Unit)) :
    ByteSink.inTurn (xs ++ ys) = (do
      ByteSink.inTurn xs
      ByteSink.inTurn ys) := by
  induction xs with
  | nil => simp [ByteSink.inTurn]
  | cons x xs ih => simp [ByteSink.inTurn, ih]

@[simp] theorem pour_empty : empty.pour sink = pure () := rfl

@[simp] theorem pour_chunk (bs : Bytes) : (chunk bs).pour sink = sink bs := by
  simp [pour, chunk, ByteSink.inTurn]

@[simp] theorem pour_fail (e : WireError) : (fail e).pour sink = throw e := rfl

@[simp] theorem pour_invalid (why : InvalidValue) :
    (invalid why).pour sink = throw (.invalid why) := rfl

theorem pour_append (a b : Output) : (a ++ b).pour sink = (do
    a.pour sink
    b.pour sink) := by
  obtain ⟨as, _ | e⟩ := a
  · simp [pour, inTurn_append]
  · simp [pour, throw_bind]

theorem pour_concat (os : List Output) :
    (concat os).pour sink = ByteSink.inTurn (os.map (pour sink)) := by
  induction os with
  | nil => rfl
  | cons o os ih => rw [concat, pour_append, ih, List.map_cons, ByteSink.inTurn]

end Output

open Output

namespace ByteSink

variable (order : ByteOrder)

theorem putInt_eq (kind : IntKind) (v : Value) :
    sink.putInt order kind v = (rawInt order kind v).pour sink := by
  unfold putInt rawInt
  cases v.toInt? with
  | none => rfl
  | some n => by_cases hn : kind.holds n = true <;> simp [hn]

theorem putDouble_eq (v : Value) : sink.putDouble order v = (rawDouble order v).pour sink := by
  unfold putDouble rawDouble
  cases nearestDouble? v with
  | none => rfl
  | some x => exact (pour_chunk _).symm

theorem putCount_eq (n : Nat) : sink.putCount order n = (count order n).pour sink := by
  rw [putCount, putInt_eq]
  rfl

theorem putExactSingle_eq {v : Value} {x : Binary64} (h : nearestDouble? v = some x)
    (same : Binary64 → Bool) :
    sink.putExactSingle order v x same = (exactSingle order v x same).pour sink := by
  unfold putExactSingle exactSingle
  cases hbits : x.toSingle? with
  | none => rfl
  | some bits =>
    have hput : sink.putSingle order v = sink (singleBytes order bits) := by
      rw [putSingle, h, Option.bind_some, hbits]
    by_cases hsame : (x.isNaN || same (Binary64.ofSingle bits)) = true <;> simp [hsame, hput]

end ByteSink

open ByteSink

theorem putInt_byte (order : ByteOrder) {n : Nat} (h : n < 0x100) :
    sink.putInt order .uint8 (.int n) = sink [UInt8.ofNat n] := by
  have hholds : IntKind.uint8.holds n = true := by
    rw [IntKind.uint8, IntKind.holds_unsigned]
    change _ ∧ _ < (2 : Int) ^ 8
    omega
  have hbytes : intBytes order .uint8 n = [UInt8.ofNat n] := by
    have hmod : ((n : Int) % 2 ^ 8).toNat = n := by omega
    change order.arrange [UInt8.ofNat (((n : Int) % 2 ^ 8).toNat % 256)] = _
    rw [hmod, Nat.mod_eq_of_lt h]
    cases order <;> rfl
  have hput : sink.putInt order .uint8 (.int n) =
      if IntKind.uint8.holds n then sink (intBytes order .uint8 n)
      else throw (.invalid (.unpackable (.int n) IntKind.uint8.letter)) := rfl
  rw [hput, if_pos hholds, hbytes]

theorem Primitive.emit_float_int (config : ConfigOf ε) (n : Int) :
    float.emit sink config (.int n) =
      sink.putWholeSingle config.byteOrder n (Binary64.ofInt? n) := rfl

theorem Primitive.emit_eq (config : ConfigOf ε) (p : Primitive) (v : Value) :
    p.emit sink config v = (p.write config v).pour sink := by
  fun_cases write config p v with
  | case4 => exact putExactSingle_eq _ rfl _
  | case5 n hx =>
    rw [emit_float_int, hx]
    rfl
  | case6 n x hx =>
    rw [emit_float_int, hx]
    have hnearest : nearestDouble? (.int n) = some x := by rw [nearestDouble?_of_toInt? rfl, hx]
    rw [putWholeSingle, putExactSingle_eq _ hnearest]
  | case8 | case9 => rw [emit, putDouble_eq]
  | case2 => simp [emit, *, putInt]
  | case12 _ n => by_cases hn : n = 0 <;> simp [emit, *, putBool]
  | case13 c hc => simp [emit, hc, putInt_byte]
  | case16 => simp [emit, *, lengthPrefixed, pour_append, putCount_eq]
  | _ => simp [emit, *]

theorem emitColour_eq (order : ByteOrder) (v : Value) :
    emitColour sink order v = (writeColour order v).pour sink := by
  fun_cases emitColour sink order v with
  | case2 r g b hv _ _ _ hb hg hr =>
    simp only [writeColour, hv, hr, hg, hb]
    exact putInt_eq _ _ _
  | _ => simp [writeColour, *]

theorem emitEntries_eq (config : ConfigOf ε) (entries : List (Value × Output)) :
    emitEntries sink config (entries.map fun e => (e.1, e.2.pour sink)) =
      (writeEntries config entries).pour sink := by
  unfold emitEntries writeEntries
  rw [arrangeEntries_map entries fun e => e.2.pour sink]
  cases arrangeEntries config entries with
  | none => rfl
  | some arranged =>
    simp only [Option.map_some, List.length_map, pour_append, putCount_eq, pour_concat,
      List.map_map]
    rfl

/-- Writing to a sink is handing over what is written. -/
theorem Layout.emit_eq_pour (config : ConfigOf ε) (codec : Codec) (v : Value) :
    codec.emit sink config v = (codec.write config v).pour sink := by
  induction codec, v using induct_passes with
  | step codec v ih =>
    cases codec with
    | primitive p => rw [emit, write_primitive, Primitive.emit_eq]
    | rgb565 => rw [emit, write_rgb565, emitColour_eq]
    | list element =>
      rw [emit_list, write_list]
      cases hv : v.items (Layout.list element).name with
      | error e => rfl
      | ok items =>
        have hitems : items.map (element.emit sink config) =
            items.map fun x => (element.write config x).pour sink :=
          List.map_congr_left fun x hx => ih _ _ (.item hv hx)
        simp only [pour_append, putCount_eq, pour_concat, List.map_map, hitems]
        rfl
    | map key value =>
      rw [emit_map, write_map]
      cases hv : v.pairs with
      | error e => rfl
      | ok pairs =>
        have hentries : (pairs.map fun e => (e.1, do
              key.emit sink config e.1
              value.emit sink config e.2)) =
            (pairs.map fun e => (e.1, key.write config e.1 ++ value.write config e.2)).map
              fun e => (e.1, e.2.pour sink) := by
          rw [List.map_map]
          refine List.map_congr_left fun e he => ?_
          simp only [Function.comp_apply, pour_append, Primitive.emit_eq,
            ih _ _ (.value hv he)]
        simp only [hentries]
        exact emitEntries_eq config _
    | record type =>
      by_cases hr : ∃ head values, v = .record head values
      · obtain ⟨head, values, rfl⟩ := hr
        rw [emit_record, write_record]
        split
        · rename_i hk
          split
          · rfl
          · have hfields : ((head.type.fields.zip values).map fun p =>
                p.1.layout.emit sink config p.2) = (head.type.fields.zip values).map fun p =>
                (p.1.layout.write config p.2).pour sink :=
              List.map_congr_left fun p hp => ih _ _ (.field hk hp)
            rw [writeFields, pour_concat, List.map_map, hfields]
            rfl
        · rfl
      · rw [emit, write_record_of_ne config type fun head values h => hr ⟨head, values, h⟩]
        · rfl
        · exact fun head values h => hr ⟨head, values, h⟩

end RecordWire
