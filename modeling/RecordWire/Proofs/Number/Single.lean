import RecordWire.Proofs.Number.Binary
import RecordWire.Number.Binary64

/-!
Single precision inside double precision. Every pattern of single precision that is not NaN is
widened exactly, and narrowed to itself; NaN keeps what single precision can hold of it.
-/

namespace RecordWire.Binary64

open BinaryFormat (binary32 binary64 nearest_units_mul units_nearest)

theorem eq_of_bits_toNat {x y : Binary64} (h : x.bits.toNat = y.bits.toNat) : x = y := by
  cases x
  cases y
  exact congrArg mk (UInt64.toNat_inj.1 h)

theorem bits_toNat (x : Binary64) :
    x.bits.toNat = (if x.negative then 2 ^ 63 else 0) + x.word := by
  have hlt := x.bits.toNat_lt
  simp only [negative, word, decide_eq_true_eq]
  split <;> omega

theorem eq_of_word {x y : Binary64} (hn : x.negative = y.negative) (hw : x.word = y.word) : x = y :=
  eq_of_bits_toNat (by rw [bits_toNat, bits_toNat, hn, hw])

section

variable {negative : Bool} {word : Nat}

theorem toNat_ofWord (h : word < 2 ^ 63) :
    (ofWord negative word).bits.toNat = (if negative then 2 ^ 63 else 0) + word := by
  apply UInt64.toNat_ofNat_of_lt'
  change _ < 2 ^ 64
  split <;> omega

@[simp] theorem negative_ofWord (h : word < 2 ^ 63) :
    (ofWord negative word).negative = negative := by
  simp only [Binary64.negative, toNat_ofWord h]
  cases negative <;> simp <;> omega

@[simp] theorem word_ofWord (h : word < 2 ^ 63) : (ofWord negative word).word = word := by
  simp only [Binary64.word, toNat_ofWord h]
  cases negative <;> simp <;> omega

end

def single (negative : Bool) (word : Nat) : UInt32 :=
  UInt32.ofNat ((if negative then 2 ^ 31 else 0) + word)

theorem exists_single (bits : UInt32) : ∃ negative word, word < 2 ^ 31 ∧
    bits = single negative word := by
  have hlt := bits.toNat_lt
  refine ⟨decide (2 ^ 31 ≤ bits.toNat), bits.toNat % 2 ^ 31, by omega, ?_⟩
  rw [← UInt32.toNat_inj, single, UInt32.toNat_ofNat_of_lt']
  · simp only [decide_eq_true_eq]
    split <;> omega
  · change _ < 2 ^ 32
    simp only [decide_eq_true_eq]
    split <;> omega

theorem infinity_binary32 : binary32.infinity = 255 * 2 ^ 23 := rfl

theorem infinity_binary64 : binary64.infinity = 2047 * 2 ^ 52 := rfl

section

variable {negative : Bool} {word : Nat}

theorem toNat_single (h : word < 2 ^ 31) :
    (single negative word).toNat = (if negative then 2 ^ 31 else 0) + word := by
  apply UInt32.toNat_ofNat_of_lt'
  change _ < 2 ^ 32
  split <;> omega

theorem ofSingle_single (h : word < 2 ^ 31) : ofSingle (single negative word) =
    if binary32.infinity < word then
      ofWord negative (binary64.infinity + 2 ^ 51 + word % 2 ^ 22 * 2 ^ 29)
    else if word = binary32.infinity then infinity negative
    else ofWord negative (binary64.nearest (binary32.units word * 2 ^ narrowing) 1) := by
  have hw : (single negative word).toNat % 2 ^ 31 = word := by
    rw [toNat_single h]
    cases negative <;> simp <;> omega
  have hn : decide (2 ^ 31 ≤ (single negative word).toNat) = negative := by
    rw [toNat_single h]
    cases negative <;> simp <;> omega
  simp only [ofSingle, hw, hn]

/-- The magnitude of a finite word of single precision has few enough bits for double precision. -/
theorem exists_units_binary32 (h : word < binary32.infinity) :
    ∃ m k, m < 2 ^ 24 ∧ k < 254 ∧ binary32.units word = m * 2 ^ k := by
  by_cases hs : word < 2 ^ binary32.fraction
  · refine ⟨word, 0, ?_, by omega, by rw [BinaryFormat.units_of_lt hs, Nat.pow_zero, Nat.mul_one]⟩
    exact Nat.lt_of_lt_of_le hs (Nat.pow_le_pow_right (by decide) (by decide))
  · obtain ⟨e, m, hm, rfl⟩ := BinaryFormat.exists_normal hs
    refine ⟨2 ^ binary32.fraction + m, e, ?_, ?_, BinaryFormat.units_normal e hm⟩
    · change m < 2 ^ 23 at hm
      change 2 ^ 23 + m < 2 ^ 24
      omega
    · change (e + 1) * 2 ^ 23 + m < 255 * 2 ^ 23 at h
      omega

theorem narrowing_eq : narrowing = 925 := rfl

theorem nearest_widened_lt (h : word < binary32.infinity) :
    binary64.nearest (binary32.units word * 2 ^ narrowing) 1 < binary64.infinity := by
  obtain ⟨m, k, hm, hk, hu⟩ := exists_units_binary32 h
  have hlog : (binary32.units word * 2 ^ narrowing).log2 ≤ 23 + (k + narrowing) := by
    apply BinaryFormat.log2_le_of_lt
    rw [hu, Nat.mul_assoc, ← Nat.pow_add,
      show 23 + (k + narrowing) + 1 = 24 + (k + narrowing) by omega,
      Nat.pow_add 2 24]
    exact Nat.mul_lt_mul_of_pos_right hm (Nat.two_pow_pos _)
  refine Nat.lt_of_le_of_lt (BinaryFormat.nearest_le _) ?_
  have hn := narrowing_eq
  rw [infinity_binary64]
  change (_ - 52 + 2) * 2 ^ 52 < _
  omega

theorem units_widened (h : word < binary32.infinity) :
    binary64.units (binary64.nearest (binary32.units word * 2 ^ narrowing) 1) =
      binary32.units word * 2 ^ narrowing := by
  have hfin := nearest_widened_lt h
  obtain ⟨m, k, hm, -, hu⟩ := exists_units_binary32 h
  rw [hu, Nat.mul_assoc, ← Nat.pow_add] at hfin ⊢
  exact units_nearest (Nat.lt_of_lt_of_le hm (Nat.pow_le_pow_right (by decide) (by decide))) hfin

theorem toSingle?_ofWord_nan {p : Nat} (hp : p < 2 ^ 51) :
    (ofWord negative (binary64.infinity + 2 ^ 51 + p)).isNaN = true ∧
    toSingle? (ofWord negative (binary64.infinity + 2 ^ 51 + p)) =
      some (single negative (binary32.infinity + 2 ^ 22 + p / 2 ^ 29)) := by
  have hlt : binary64.infinity + 2 ^ 51 + p < 2 ^ 63 := by
    rw [infinity_binary64]
    omega
  have hnan : (ofWord negative (binary64.infinity + 2 ^ 51 + p)).isNaN = true := by
    simp only [isNaN, word_ofWord hlt, decide_eq_true_eq]
    omega
  have hmod : (binary64.infinity + 2 ^ 51 + p) % 2 ^ 51 = p := by
    rw [infinity_binary64]
    omega
  refine ⟨hnan, ?_⟩
  simp only [toSingle?, hnan, if_true, negative_ofWord hlt, word_ofWord hlt, hmod]
  simp only [single, Nat.add_assoc]

theorem ofSingle_nan {p : Nat} (hp : p < 2 ^ 22) :
    ofSingle (single negative (binary32.infinity + 2 ^ 22 + p)) =
      ofWord negative (binary64.infinity + 2 ^ 51 + p * 2 ^ 29) := by
  have hlt : binary32.infinity + 2 ^ 22 + p < 2 ^ 31 := by
    rw [infinity_binary32]
    omega
  have hmod : (binary32.infinity + 2 ^ 22 + p) % 2 ^ 22 = p := by
    rw [infinity_binary32]
    omega
  rw [ofSingle_single hlt, if_pos (by omega), hmod]

theorem toSingle?_ofSingle_single (h : word ≤ binary32.infinity) :
    (ofSingle (single negative word)).isNaN = false ∧
    toSingle? (ofSingle (single negative word)) = some (single negative word) := by
  have hlt : word < 2 ^ 31 := by
    rw [infinity_binary32] at h
    omega
  rw [ofSingle_single hlt, if_neg (by omega)]
  by_cases hw : word = binary32.infinity
  · subst hw
    have hinf : binary64.infinity < 2 ^ 63 := by decide
    simp [infinity, isNaN, toSingle?, isInfinite, negative_ofWord hinf, word_ofWord hinf, single]
  · have hfin : word < binary32.infinity := by omega
    have hnear := nearest_widened_lt hfin
    have hinf : binary64.nearest (binary32.units word * 2 ^ narrowing) 1 < 2 ^ 63 := by
      rw [infinity_binary64] at hnear
      omega
    have hnan : (ofWord negative
        (binary64.nearest (binary32.units word * 2 ^ narrowing) 1)).isNaN = false := by
      simp only [isNaN, word_ofWord hinf, decide_eq_false_iff_not]
      omega
    have hinfinite : (ofWord negative
        (binary64.nearest (binary32.units word * 2 ^ narrowing) 1)).isInfinite = false := by
      simp only [isInfinite, word_ofWord hinf, beq_eq_false_iff_ne]
      omega
    have hunits : (ofWord negative
        (binary64.nearest (binary32.units word * 2 ^ narrowing) 1)).units =
          binary32.units word * 2 ^ narrowing := by
      rw [units, word_ofWord hinf, units_widened hfin]
    rw [if_neg hw]
    refine ⟨hnan, ?_⟩
    simp only [toSingle?, hnan, hinfinite, hunits, negative_ofWord hinf, Bool.false_eq_true,
      if_false,
      nearest_units_mul (Nat.le_of_lt hfin) (Nat.two_pow_pos narrowing), hfin, if_true, single]

end

theorem toSingle?_ofSingle {bits : UInt32} (h : (ofSingle bits).isNaN = false) :
    toSingle? (ofSingle bits) = some bits := by
  obtain ⟨negative, word, hlt, rfl⟩ := exists_single bits
  by_cases hw : word ≤ binary32.infinity
  · exact (toSingle?_ofSingle_single hw).2
  · -- A larger word stands for NaN.
    rw [ofSingle_single hlt, if_pos (by omega),
      (toSingle?_ofWord_nan (p := word % 2 ^ 22 * 2 ^ 29) (by omega)).1] at h
    cases h

theorem toSingle?_ofSingle_of_isNaN {x : Binary64} {bits : UInt32} (hx : x.isNaN = true)
    (h : x.toSingle? = some bits) :
    (ofSingle bits).isNaN = true ∧ toSingle? (ofSingle bits) = some bits := by
  have hp : x.word % 2 ^ 51 / 2 ^ 29 < 2 ^ 22 := by omega
  have hbits :
      bits = single x.negative (binary32.infinity + 2 ^ 22 + x.word % 2 ^ 51 / 2 ^ 29) := by
    simp only [toSingle?, hx, if_true, Option.some.injEq] at h
    rw [← h]
    simp only [single, Nat.add_assoc]
  rw [hbits, ofSingle_nan hp]
  generalize x.word % 2 ^ 51 / 2 ^ 29 = p at hp
  have hp' : p * 2 ^ 29 < 2 ^ 51 := by omega
  obtain ⟨hnan, hs⟩ := toSingle?_ofWord_nan hp'
  refine ⟨hnan, hs.trans ?_⟩
  rw [Nat.mul_div_cancel p (by decide)]

theorem exists_toSingle?_of_isNaN {x : Binary64} (hx : x.isNaN = true) :
    ∃ bits, x.toSingle? = some bits := by
  simp only [toSingle?, hx, if_true]
  exact ⟨_, rfl⟩

theorem negative_ofSingle_single {negative : Bool} {word : Nat} (h : word < 2 ^ 31) :
    (ofSingle (single negative word)).negative = negative := by
  rw [ofSingle_single h]
  split
  · apply negative_ofWord
    rw [infinity_binary64]
    omega
  · split
    · exact negative_ofWord (by decide)
    · have hfin : word < binary32.infinity := by omega
      have hnear := nearest_widened_lt hfin
      apply negative_ofWord
      rw [infinity_binary64] at hnear
      omega

theorem exists_single_of_toSingle? {x : Binary64} {bits : UInt32} (hx : x.isNaN = false)
    (h : x.toSingle? = some bits) : ∃ word < 2 ^ 31, bits = single x.negative word := by
  simp only [toSingle?, hx, Bool.false_eq_true, if_false] at h
  split at h
  · exact ⟨binary32.infinity, by decide, (Option.some.inj h).symm⟩
  · split at h
    · rename_i hlt
      refine ⟨_, ?_, (Option.some.inj h).symm⟩
      rw [infinity_binary32] at hlt
      omega
    · cases h

theorem ofSingle_eq_of_equal {x : Binary64} {bits : UInt32} (h : x.toSingle? = some bits)
    (he : x.equal (ofSingle bits) = true) : ofSingle bits = x := by
  simp only [equal, Bool.and_eq_true, Bool.not_eq_true', beq_iff_eq] at he
  obtain ⟨⟨hx, -⟩, hrank⟩ := he
  obtain ⟨word, hlt, rfl⟩ := exists_single_of_toSingle? hx h
  have hneg : (ofSingle (single x.negative word)).negative = x.negative :=
    negative_ofSingle_single hlt
  refine eq_of_word hneg ?_
  simp only [rank, hneg] at hrank
  split at hrank <;> omega

end RecordWire.Binary64
