import RecordWire.Proofs.Number.Single

/-!
Integers in double precision. A format holds an integer if no bit of it is behind the first ones
that the format has room for. The nearest number to an integer is the integer itself exactly if
double precision holds it.
-/

namespace RecordWire

namespace BinaryFormat

/-- The bits of an integer behind the leading ones that a format has room for are zero. Whether it
is too large is another question. -/
def Holds (f : BinaryFormat) (n : Int) : Prop := 2 ^ (n.natAbs.log2 - f.fraction) ∣ n.natAbs

instance (f : BinaryFormat) (n : Int) : Decidable (f.Holds n) :=
  inferInstanceAs (Decidable (_ ∣ _))

variable {f : BinaryFormat}

theorem holds_iff {n : Int} :
    f.Holds n ↔ ∃ m k, m < 2 ^ (f.fraction + 1) ∧ n.natAbs = m * 2 ^ k := by
  constructor
  · rintro ⟨m, hm⟩
    refine ⟨m, n.natAbs.log2 - f.fraction, ?_, hm.trans (Nat.mul_comm _ _)⟩
    have hlt : n.natAbs < 2 ^ (n.natAbs.log2 - f.fraction + (f.fraction + 1)) :=
      Nat.lt_of_lt_of_le Nat.lt_log2_self (Nat.pow_le_pow_right (by decide) (by omega))
    rw [Nat.pow_add] at hlt
    exact Nat.lt_of_mul_lt_mul_left (Nat.lt_of_le_of_lt (Nat.le_of_eq hm.symm) hlt)
  · rintro ⟨m, k, hm, hn⟩
    have hlog : n.natAbs.log2 ≤ f.fraction + k := hn ▸ log2_mul_le hm k
    have hk : 2 ^ (n.natAbs.log2 - f.fraction) ∣ 2 ^ k := Nat.pow_dvd_pow 2 (by omega)
    exact Nat.dvd_trans hk ⟨m, hn.trans (Nat.mul_comm _ _)⟩

theorem exists_units (f : BinaryFormat) (word : Nat) :
    ∃ m e, m < 2 ^ (f.fraction + 1) ∧ f.units word = m * 2 ^ e := by
  rw [Nat.pow_succ]
  by_cases h : word < 2 ^ f.fraction
  · exact ⟨word, 0, by omega, by rw [units_of_lt h, Nat.pow_zero, Nat.mul_one]⟩
  · obtain ⟨e, m, hm, rfl⟩ := exists_normal h
    exact ⟨2 ^ f.fraction + m, e, by omega, units_normal e hm⟩

/-- The nearest word to an integer, counted in units of `2 ^ -u`, has the magnitude of the integer
if and only if the format holds it. -/
theorem units_nearest_iff {u : Nat} {n : Int}
    (hfin : f.nearest (n.natAbs * 2 ^ u) 1 < f.infinity) :
    f.units (f.nearest (n.natAbs * 2 ^ u) 1) = n.natAbs * 2 ^ u ↔ f.Holds n := by
  rw [holds_iff]
  constructor
  · intro h
    obtain ⟨m, e, hm, hunits⟩ := f.exists_units (f.nearest (n.natAbs * 2 ^ u) 1)
    rw [h] at hunits
    by_cases he : u ≤ e
    · refine ⟨m, e - u, hm, Nat.eq_of_mul_eq_mul_right (Nat.two_pow_pos u) ?_⟩
      rw [hunits, Nat.mul_assoc, ← Nat.pow_add, Nat.sub_add_cancel he]
    · -- With fewer zeros behind it than a whole number has, the magnitude is a small number.
      have hsmall : n.natAbs * 2 ^ (u - e) = m := by
        refine Nat.eq_of_mul_eq_mul_right (Nat.two_pow_pos e) ?_
        rw [← hunits, Nat.mul_assoc, ← Nat.pow_add, Nat.sub_add_cancel (by omega)]
      refine ⟨n.natAbs, 0, Nat.lt_of_le_of_lt ?_ hm, by rw [Nat.pow_zero, Nat.mul_one]⟩
      rw [← hsmall]
      exact Nat.le_mul_of_pos_right _ (Nat.two_pow_pos _)
  · rintro ⟨m, k, hm, hn⟩
    rw [hn, Nat.mul_assoc, ← Nat.pow_add] at hfin ⊢
    exact units_nearest hm hfin

end BinaryFormat

namespace Binary64

open BinaryFormat (binary64)

theorem exists_word_of_ofInt? {n : Int} {x : Binary64} (h : ofInt? n = some x) :
    x.word = binary64.nearest (n.natAbs * one) 1 ∧ x.negative = decide (n < 0) ∧
      x.isNaN = false ∧ x.word < binary64.infinity := by
  have hlt : binary64.nearest (n.natAbs * one) 1 < 2 ^ 63 :=
    Nat.lt_of_le_of_lt (Nat.min_le_left _ _) (by rw [infinity_binary64]; omega)
  simp only [ofInt?] at h
  split at h
  · rename_i hfin
    obtain rfl := Option.some.inj h
    simp only [ofQuotient, isFinite, isNaN, word_ofWord hlt, negative_ofWord hlt,
      decide_eq_true_eq] at hfin ⊢
    exact ⟨trivial, trivial, by simpa using Nat.le_of_lt hfin, hfin⟩
  · cases h

theorem isNaN_of_ofInt? {n : Int} {x : Binary64} (h : ofInt? n = some x) : x.isNaN = false :=
  (exists_word_of_ofInt? h).2.2.1

theorem equalInt_ofInt? {n : Int} {x : Binary64} (h : ofInt? n = some x) :
    x.equalInt n = true ↔ binary64.Holds n := by
  obtain ⟨hword, hsign, -, hfin⟩ := exists_word_of_ofInt? h
  have hf : x.isFinite = true := by simpa [isFinite] using hfin
  have hunits : x.units = n.natAbs * one ↔ binary64.Holds n := by
    obtain ⟨u, hu⟩ : ∃ u, one = 2 ^ u := ⟨1074, rfl⟩
    rw [hword, hu] at hfin
    rw [units, hword, hu, BinaryFormat.units_nearest_iff hfin]
  rw [← hunits, equalInt, hf, scaled, hsign]
  simp only [Bool.true_and, beq_iff_eq, decide_eq_true_eq]
  generalize one = u
  have habs : ((n.natAbs * u : Nat) : Int) = n.natAbs * (u : Int) := Int.natCast_mul _ _
  split
  · rename_i hn
    have : n = -(n.natAbs : Int) := by omega
    generalize n.natAbs = a at *
    subst this
    rw [Int.neg_mul, Int.neg_inj, ← habs]
    exact Int.ofNat_inj
  · rename_i hn
    have : n = (n.natAbs : Int) := by omega
    generalize n.natAbs = a at *
    subst this
    rw [← habs]
    exact Int.ofNat_inj

end Binary64

end RecordWire
