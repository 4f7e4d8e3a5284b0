import RecordWire.Codec.Write
import RecordWire.Proofs.Wire.Format

/-!
Writing that succeeds, and the bytes that it leaves in an unlimited stream. What is written one
after the other is one byte string after the other.
-/

namespace RecordWire

namespace Sink

theorem takeChunks_of_unlimited (written : Bytes) (cs : List Bytes) :
    takeChunks { written := written } cs = ({ written := written ++ cs.flatten }, true) := by
  induction cs generalizing written with
  | nil => simp [takeChunks]
  | cons c cs ih => simp [takeChunks, ih]

end Sink

namespace Output

open Reader (SpellAll)

/-- Writing succeeds, and an empty stream without limit holds the bytes afterwards. -/
def Writes (o : Output) (bs : Bytes) : Prop := ({} : Sink).take o = ({ written := bs }, none)

theorem writes_iff {o : Output} {bs : Bytes} : o.Writes bs ↔ o.error? = none ∧ o.bytes = bs := by
  simp only [Writes, Sink.take, Sink.takeChunks_of_unlimited, List.nil_append, Prod.mk.injEq,
    Sink.mk.injEq, and_true, bytes]
  exact and_comm

theorem Writes.unique {o : Output} {bs cs : Bytes} (h : o.Writes bs) (h' : o.Writes cs) : bs = cs :=
  (writes_iff.1 h).2.symm.trans (writes_iff.1 h').2

section

variable {a b : Output} {bs : Bytes}

@[simp] theorem writes_chunk {cs : Bytes} : (chunk cs).Writes bs ↔ bs = cs := by
  simp [writes_iff, chunk, bytes, eq_comm]

@[simp] theorem writes_empty : empty.Writes bs ↔ bs = [] := by
  simp [writes_iff, empty, bytes, eq_comm]

@[simp] theorem not_writes_fail {e : WireError} : ¬ (fail e).Writes bs := by
  simp [writes_iff, fail]

@[simp] theorem not_writes_invalid {why : InvalidValue} : ¬ (invalid why).Writes bs :=
  not_writes_fail

theorem writes_append :
    (a ++ b).Writes bs ↔ ∃ cs ds, bs = cs ++ ds ∧ a.Writes cs ∧ b.Writes ds := by
  obtain ⟨as, _ | e⟩ := a
  · obtain ⟨bs', eb⟩ := b
    simp only [writes_iff, append_of_ok, bytes, List.flatten_append, true_and]
    constructor
    · rintro ⟨he, rfl⟩
      exact ⟨_, _, rfl, rfl, he, rfl⟩
    · rintro ⟨cs, ds, rfl, rfl, he, rfl⟩
      exact ⟨he, rfl⟩
  · simp [writes_iff]

theorem writes_concat {α : Type} {f : α → Output} {xs : List α} :
    (concat (xs.map f)).Writes bs ↔ SpellAll (fun cs x => (f x).Writes cs) bs xs := by
  induction xs generalizing bs with
  | nil =>
    rw [List.map_nil, concat, writes_empty]
    constructor
    · rintro rfl
      exact .nil
    · rintro ⟨⟩
      rfl
  | cons x xs ih =>
    rw [List.map_cons, concat, writes_append]
    constructor
    · rintro ⟨cs, ds, rfl, hx, hxs⟩
      exact .cons hx (ih.1 hxs)
    · rintro ⟨⟩
      rename_i hx hxs
      exact ⟨_, _, rfl, hx, ih.2 hxs⟩

theorem writes_count {order : ByteOrder} {n : Nat} :
    (count order n).Writes bs ↔ n < 2 ^ 32 ∧ bs = order.countBytes n := by
  have hh : IntKind.uint32.holds n = true ↔ n < 2 ^ 32 := by
    rw [IntKind.uint32, IntKind.holds_unsigned]
    change _ ∧ _ < (2 : Int) ^ 32 ↔ _
    omega
  unfold count
  split
  · rename_i h
    rw [writes_chunk]
    exact ⟨fun hb => ⟨hh.1 h, hb⟩, And.right⟩
  · rename_i h
    exact ⟨fun hw => absurd hw not_writes_invalid, fun hn => absurd (hh.2 hn.1) h⟩

theorem writes_counted {order : ByteOrder} {n : Nat} {o : Output} :
    (count order n ++ o).Writes bs ↔
      n < 2 ^ 32 ∧ ∃ body, bs = order.countBytes n ++ body ∧ o.Writes body := by
  rw [writes_append]
  constructor
  · rintro ⟨cs, body, rfl, hc, ho⟩
    obtain ⟨hn, rfl⟩ := writes_count.1 hc
    exact ⟨hn, body, rfl, ho⟩
  · rintro ⟨hn, body, rfl, ho⟩
    exact ⟨_, body, rfl, writes_count.2 ⟨hn, rfl⟩, ho⟩

end

end Output

end RecordWire
