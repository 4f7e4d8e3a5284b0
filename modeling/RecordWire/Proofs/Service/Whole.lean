import RecordWire.Proofs.Service.BackToBack
import RecordWire.Proofs.Wire.Strict

/-!
Whole records in memory, by their own operations. A record that does not hide the operation is turned
into the bytes that it is encoded as. A type reads a record that stands at the beginning of some
bytes; what stands behind it goes unread, or is refused in strict mode.
-/

namespace RecordWire

variable {config : Config} {bs cs : Bytes} {type : RecordType} {v : Value}

open Source (amid)

theorem Value.toBytes_eq_ok_iff : v.toBytes config = .ok bs ↔
    v.hides .toBytes = false ∧ (v.encode config).Writes bs := by
  rw [toBytes, Output.writes_iff]
  cases v.hides .toBytes with
  | true => simp
  | false =>
    cases (v.encode config).error? with
    | some e => simp
    | none => simp

theorem Reader.ensureConsumed_amid (config : Config) (before after : Bytes) :
    ensureConsumed config (amid before after) =
      if config.strict = true ∧ after ≠ [] then
        .error (.trailing after.length before.length) (amid before after)
      else .ok () (amid before after) := by
  have hz : (after.length : Int) = 0 ↔ after = [] := by
    rw [Int.natCast_eq_zero, List.length_eq_zero_iff]
  simp only [ensureConsumed, Source.remaining?_amid, hz]
  by_cases hs : config.strict = true
  · by_cases ha : after = []
    · simp [hs, ha]
    · simp only [hs, ha, if_true, if_false, ne_eq, not_false_iff, and_self]
      rfl
  · simp [hs]

/-- A record at the beginning of some bytes is read from them, unless bytes behind it are refused. -/
theorem RecordLayout.fromBytes_append (hh : type.hides .fromBytes = false)
    (hi : type.isInstantiable = true)
    (h : type.Spells config.byteOrder config.encoding bs v) (cs : Bytes) :
    type.fromBytes config (bs ++ cs) =
      if config.strict = true ∧ cs ≠ [] then .error (.trailing cs.length bs.length) else .ok v := by
  have hread : type.readNew config (amid [] (bs ++ cs)) = .ok v (amid bs cs) :=
    (type.reads_new config).complete ⟨hi, h⟩ [] cs
  have hconsumed := Reader.ensureConsumed_amid config bs cs
  rw [fromBytes, hh, Source.ofBytes_eq_amid, readWhole, Reader.bind_of_ok hread]
  by_cases hs : config.strict = true ∧ cs ≠ []
  · rw [if_pos hs] at hconsumed ⊢
    rw [Reader.bind_of_error hconsumed]
    rfl
  · rw [if_neg hs] at hconsumed ⊢
    rw [Reader.bind_of_ok hconsumed]
    rfl

theorem RecordLayout.fromBytes_of_spells (hh : type.hides .fromBytes = false)
    (hi : type.isInstantiable = true) (h : type.Spells config.byteOrder config.encoding bs v) :
    type.fromBytes config bs = .ok v := by
  simpa using fromBytes_append hh hi h []

end RecordWire
