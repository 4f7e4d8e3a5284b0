import RecordWire.Proofs.Number.Nearest
import RecordWire.Proofs.Number.Single

/-!
Narrowing to single precision. A finite number goes to the nearest finite pattern of single precision
with its sign, of two that are as near to the one whose last bit is zero, unless it is nearer to what
would follow the largest of them. Infinities stay as they are.
-/

namespace RecordWire.Binary64

open BinaryFormat (binary32 binary64 exists_isNearest nearest_of_isNearest)

def isFiniteSingle (bits : UInt32) : Bool := bits.toNat % 2 ^ 31 < binary32.infinity

/-- The value of a finite pattern of single precision times `2 ^ 1074`. -/
def singleScaled (bits : UInt32) : Int :=
  let magnitude : Nat := binary32.units (bits.toNat % 2 ^ 31) * 2 ^ narrowing
  if 2 ^ 31 ≤ bits.toNat then -magnitude else magnitude

/-- How far a finite number is from a finite pattern of single precision. -/
def singleGap (x : Binary64) (bits : UInt32) : Nat := (x.scaled - singleScaled bits).natAbs

/-- No finite pattern of single precision is nearer to a finite number. Another value that is as near is
met by a pattern whose last bit is zero, and the pattern has the sign of the number, also if it is a
zero. -/
structure IsNearestSingle (x : Binary64) (bits : UInt32) : Prop where
  finite : isFiniteSingle bits = true
  sign : decide (2 ^ 31 ≤ bits.toNat) = x.negative
  least : ∀ other, isFiniteSingle other = true → x.singleGap bits ≤ x.singleGap other
  even : ∀ other, isFiniteSingle other = true → singleScaled other ≠ singleScaled bits →
    x.singleGap other = x.singleGap bits → bits.toNat % 2 = 0

/-- A finite number is nearest to no finite word of single precision, where words go on beyond the
finite ones as if the exponent had no bound. -/
def RoundsBeyondSingle (x : Binary64) : Prop :=
  x.isFinite = true ∧
    ∃ word, binary32.IsNearest x.units (2 ^ narrowing) word ∧ binary32.infinity ≤ word

/-- What a number is in single precision, as a number of double precision. -/
inductive RoundsToSingle (x : Binary64) : Binary64 → Prop
  | infinite (h : x.isInfinite = true) : RoundsToSingle x x
  | finite {bits : UInt32} {y : Binary64} (h : x.IsNearestSingle bits) (hfinite : y.isFinite = true)
    (hsign : y.negative = x.negative) (hvalue : y.scaled = singleScaled bits) : RoundsToSingle x y

section

variable {x : Binary64} {negative : Bool} {word other : Nat}

theorem single_mod (h : word < 2 ^ 31) : (single negative word).toNat % 2 ^ 31 = word := by
  rw [toNat_single h]
  cases negative <;> simp <;> omega

theorem single_sign (h : word < 2 ^ 31) :
    2 ^ 31 ≤ (single negative word).toNat ↔ negative = true := by
  rw [toNat_single h]
  cases negative <;> simp <;> omega

theorem single_parity (h : word < 2 ^ 31) : (single negative word).toNat % 2 = word % 2 := by
  have hmod : (single negative word).toNat % 2 ^ 31 = word := single_mod h
  omega

theorem lt_of_lt_infinity (h : word < binary32.infinity) : word < 2 ^ 31 := by
  rw [infinity_binary32] at h
  omega

theorem isFiniteSingle_single (h : word < 2 ^ 31) :
    isFiniteSingle (single negative word) = true ↔ word < binary32.infinity := by
  rw [isFiniteSingle, single_mod h, decide_eq_true_eq]

theorem singleScaled_single (h : word < 2 ^ 31) : singleScaled (single negative word) =
    if negative then -((binary32.units word * 2 ^ narrowing : Nat) : Int)
    else (binary32.units word * 2 ^ narrowing : Nat) := by
  simp only [singleScaled, single_mod h, single_sign h]

theorem gap_le_singleGap (h : word < 2 ^ 31) :
    binary32.gap x.units (2 ^ narrowing) word ≤ x.singleGap (single negative word) := by
  rw [singleGap, singleScaled_single h, scaled, BinaryFormat.gap]
  generalize binary32.units word * 2 ^ narrowing = m
  split <;> split <;> omega

theorem singleGap_of_sign (h : word < 2 ^ 31) :
    x.singleGap (single x.negative word) = binary32.gap x.units (2 ^ narrowing) word := by
  rw [singleGap, singleScaled_single h, scaled, BinaryFormat.gap]
  generalize binary32.units word * 2 ^ narrowing = m
  split <;> omega

/-- If a pattern with the other sign is as near to a number as its nearest word, then it is a zero. -/
theorem singleScaled_of_sign (hw : binary32.IsNearest x.units (2 ^ narrowing) word)
    (h : word < 2 ^ 31)
    (hgap : x.singleGap (single negative word) = binary32.gap x.units (2 ^ narrowing) word) :
    singleScaled (single negative word) = singleScaled (single x.negative word) := by
  have hzero := hw.least 0
  have hunits : binary32.units 0 = 0 := BinaryFormat.units_of_lt (Nat.two_pow_pos _)
  rw [BinaryFormat.gap, BinaryFormat.gap, hunits, Nat.zero_mul] at hzero
  rw [singleGap, singleScaled_single h, scaled, BinaryFormat.gap] at hgap
  rw [singleScaled_single h, singleScaled_single h]
  generalize binary32.units word * 2 ^ narrowing = m at *
  cases negative <;> cases hn : x.negative <;>
    simp only [hn, if_true, Bool.false_eq_true, if_false] at * <;> omega

theorem isNearestSingle_single (hw : binary32.IsNearest x.units (2 ^ narrowing) word)
    (h : word < binary32.infinity) : x.IsNearestSingle (single x.negative word) := by
  have hlt := lt_of_lt_infinity h
  constructor
  · exact (isFiniteSingle_single hlt).2 h
  · rw [Bool.eq_iff_iff, decide_eq_true_eq]
    exact single_sign hlt
  · intro other ho
    obtain ⟨sign, word', hlt', rfl⟩ := exists_single other
    calc x.singleGap (single x.negative word)
        = binary32.gap x.units (2 ^ narrowing) word := singleGap_of_sign hlt
      _ ≤ binary32.gap x.units (2 ^ narrowing) word' := hw.least word'
      _ ≤ x.singleGap (single sign word') := gap_le_singleGap hlt'
  · intro other ho hne hgap
    obtain ⟨sign, word', hlt', rfl⟩ := exists_single other
    rw [singleGap_of_sign hlt] at hgap
    rw [single_parity hlt]
    by_cases hword : word' = word
    · subst hword
      exact (hne (singleScaled_of_sign hw hlt hgap)).elim
    · apply hw.even word' hword
      exact Nat.le_antisymm (Nat.le_trans (gap_le_singleGap hlt') (Nat.le_of_eq hgap)) (hw.least word')

theorem ofSingle_finite (negative : Bool) (h : word < binary32.infinity) :
    (ofSingle (single negative word)).isFinite = true ∧
      (ofSingle (single negative word)).negative = negative ∧
      (ofSingle (single negative word)).scaled = singleScaled (single negative word) := by
  have hlt := lt_of_lt_infinity h
  have hnegative : (ofSingle (single negative word)).negative = negative :=
    negative_ofSingle_single hlt
  have hnear := nearest_widened_lt h
  have hword : (ofSingle (single negative word)).word =
      binary64.nearest (binary32.units word * 2 ^ narrowing) 1 := by
    rw [ofSingle_single hlt, if_neg (by omega), if_neg (by omega)]
    apply word_ofWord
    rw [infinity_binary64] at hnear
    omega
  refine ⟨by rwa [isFinite, hword, decide_eq_true_eq], hnegative, ?_⟩
  rw [scaled, units, hword, hnegative, units_widened h, singleScaled_single hlt]

theorem toSingle?_of_isInfinite (h : x.isInfinite = true) :
    ∃ bits, x.toSingle? = some bits ∧ ofSingle bits = x := by
  have hword : x.word = binary64.infinity := by rwa [isInfinite, beq_iff_eq] at h
  have hnan : x.isNaN = false := by
    rw [isNaN, hword]
    exact decide_eq_false (Nat.lt_irrefl _)
  refine ⟨single x.negative binary32.infinity, ?_, ?_⟩
  · simp only [toSingle?, hnan, h, Bool.false_eq_true, if_false, if_true, single]
  · rw [ofSingle_single (by decide), if_neg (Nat.lt_irrefl _), if_pos rfl]
    have hlt : binary64.infinity < 2 ^ 63 := by decide
    exact eq_of_word (negative_ofWord hlt) ((word_ofWord hlt).trans hword.symm)

theorem toSingle?_of_isFinite (hx : x.isFinite = true)
    (hw : binary32.IsNearest x.units (2 ^ narrowing) word) :
    x.toSingle? = if word < binary32.infinity then some (single x.negative word) else none := by
  rw [isFinite, decide_eq_true_eq] at hx
  have hnan : x.isNaN = false := decide_eq_false (Nat.lt_asymm hx)
  have hinfinite : x.isInfinite = false := beq_false_of_ne (Nat.ne_of_lt hx)
  have hnearest := nearest_of_isNearest (by decide) (Nat.two_pow_pos narrowing) hw
  simp only [toSingle?, hnan, hinfinite, Bool.false_eq_true, if_false, hnearest]
  by_cases h : word < binary32.infinity
  · rw [Nat.min_eq_right (Nat.le_of_lt h), if_pos h, if_pos h, single]
  · rw [Nat.min_eq_left (Nat.le_of_not_lt h), if_neg (Nat.lt_irrefl _), if_neg h]

theorem toSingle?_of_roundsBeyond (h : x.RoundsBeyondSingle) : x.toSingle? = none := by
  obtain ⟨hx, word, hw, hlarge⟩ := h
  rw [toSingle?_of_isFinite hx hw, if_neg (Nat.not_lt.2 hlarge)]

theorem exists_roundsToSingle (hx : x.isNaN = false) (h : ¬ x.RoundsBeyondSingle) :
    ∃ bits, x.toSingle? = some bits ∧ x.RoundsToSingle (ofSingle bits) ∧
      (ofSingle bits).isNaN = false := by
  by_cases hfinite : x.isFinite = true
  · obtain ⟨word, hw, -⟩ :=
      exists_isNearest (f := binary32) (by decide) x.units (Nat.two_pow_pos narrowing)
    have hlt : word < binary32.infinity := Nat.lt_of_not_le fun hle => h ⟨hfinite, word, hw, hle⟩
    obtain ⟨hy, hsign, hvalue⟩ := ofSingle_finite x.negative hlt
    refine ⟨single x.negative word, ?_, .finite (isNearestSingle_single hw hlt) hy hsign hvalue, ?_⟩
    · rw [toSingle?_of_isFinite hfinite hw, if_pos hlt]
    · exact (toSingle?_ofSingle_single (Nat.le_of_lt hlt)).1
  · have hinfinite : x.isInfinite = true := by
      simp only [isNaN, decide_eq_false_iff_not] at hx
      simp only [isFinite, decide_eq_true_eq] at hfinite
      rw [isInfinite, beq_iff_eq]
      omega
    obtain ⟨bits, hbits, hy⟩ := toSingle?_of_isInfinite hinfinite
    refine ⟨bits, hbits, ?_⟩
    rw [hy]
    exact ⟨.infinite hinfinite, hx⟩

end

theorem units_largest :
    binary32.units (binary32.infinity - 1) * 2 ^ narrowing +
      binary32.units (binary32.infinity - 1 + 1) * 2 ^ narrowing =
        2 * ((2 ^ 128 - 2 ^ 103) * one) := by
  decide +kernel

/-- What rounds beyond the largest number of single precision is what is at least as large as the middle
between it and `2 ^ 128`. -/
theorem roundsBeyondSingle_iff {x : Binary64} :
    x.RoundsBeyondSingle ↔ x.isFinite = true ∧ (2 ^ 128 - 2 ^ 103) * one ≤ x.units := by
  have hd : 0 < 2 ^ narrowing := Nat.two_pow_pos _
  have hodd : (binary32.infinity - 1) % 2 = 1 := by decide
  have hlarge : ∀ word, binary32.infinity ≤ word ↔ binary32.infinity - 1 < word := by
    have : 0 < binary32.infinity := by decide
    omega
  refine and_congr_right fun _ => ?_
  constructor
  · rintro ⟨word, hw, hle⟩
    exact (hw.lt_iff hd hodd units_largest).1 ((hlarge word).1 hle)
  · intro hle
    obtain ⟨word, hw, -⟩ := exists_isNearest (f := binary32) (by decide) x.units hd
    exact ⟨word, hw, (hlarge word).2 ((hw.lt_iff hd hodd units_largest).2 hle)⟩

end RecordWire.Binary64
