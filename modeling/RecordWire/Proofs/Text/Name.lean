import RecordWire.Proofs.Text.Blank
import RecordWire.Proofs.Text.Line
import RecordWire.Schema.TypeExpr.Parser
import RecordWire.Text.Digit

/-!
Names and words. What names are made of is neither blank nor anything that the notation around them is
made of.
-/

namespace RecordWire

namespace CodePoint

variable {c : CodePoint}

theorem not_isBlank_of_isInName (h : c.isInName = true) : c.isBlank = false := by
  rw [← Bool.not_eq_true]
  intro hb
  simp only [isInName, startsName, isLetter, isLower, isUpper, isDigit, isBlank, Bool.or_eq_true,
    Bool.and_eq_true, decide_eq_true_eq, beq_iff_eq, Fin.ext_iff] at h hb
  have hunderscore : (ofChar '_').val = 0x5F := rfl
  omega

theorem not_isSurrogate_of_isInName (h : c.isInName = true) : c.isSurrogate = false := by
  rw [← Bool.not_eq_true]
  intro hs
  simp only [isInName, startsName, isLetter, isLower, isUpper, isDigit, isSurrogate, Bool.or_eq_true,
    Bool.and_eq_true, decide_eq_true_eq, Fin.ext_iff] at h hs
  have hunderscore : (ofChar '_').val = 0x5F := rfl
  omega

theorem not_isAnyDigit_of_startsName (h : c.startsName = true) : c.isAnyDigit = false := by
  have hval : 0x3A ≤ c.val ∧ c.val < 0x7B := by
    have hunderscore : (ofChar '_').val = 0x5F := rfl
    simp only [startsName, isLetter, isLower, isUpper, Bool.or_eq_true, Bool.and_eq_true,
      decide_eq_true_eq, Fin.ext_iff] at h
    omega
  have hzeros : ∀ z ∈ decimalZeros, z + 10 ≤ 0x3A ∨ 0x7B ≤ z := by decide
  have hspecial : ∀ r ∈ specialDigits, 0x7B ≤ r.1 := by decide
  have hdecimal : decimalValue? c = none := by
    rw [decimalValue?, Option.map_eq_none_iff, List.find?_eq_none]
    intro z hz
    have := hzeros z hz
    rw [Bool.and_eq_true, decide_eq_true_eq, decide_eq_true_eq]
    omega
  rw [isAnyDigit, hdecimal, Option.isSome_none, Bool.false_or, List.any_eq_false]
  intro r hr
  have := hspecial r hr
  rw [Bool.and_eq_true, decide_eq_true_eq, decide_eq_true_eq]
  omega

end CodePoint

namespace Text

variable {s t : Text}

/-- The text is part of a name or of names with points between them. -/
def IsWord (t : Text) : Prop := ∀ c ∈ t, c.isInName = true ∨ c = CodePoint.ofChar '.'

namespace IsWord

variable {c : CodePoint}

theorem append (hs : IsWord s) (ht : IsWord t) : IsWord (s ++ t) := fun c hc =>
  (List.mem_append.1 hc).elim (hs c) (ht c)

theorem ne_of_mem (h : IsWord t) (hc : c ∈ t) {d : CodePoint} (hd : d.isInName = false)
    (hpoint : d ≠ CodePoint.ofChar '.') : c ≠ d := by
  rintro rfl
  rcases h c hc with hn | rfl
  · rw [hn] at hd
    cases hd
  · exact hpoint rfl

theorem not_isBlank (h : IsWord t) (hc : c ∈ t) : c.isBlank = false := by
  rcases h c hc with hn | rfl
  · exact CodePoint.not_isBlank_of_isInName hn
  · decide

theorem compact_eq (h : IsWord t) : t.compact = t :=
  List.filter_eq_self.2 fun c hc => by rw [h.not_isBlank hc, Bool.not_false]

theorem isTight (h : IsWord t) (hne : t ≠ []) : t.IsTight := .of_forall hne fun _ => h.not_isBlank

theorem isInline (h : IsWord t) : t.IsInline := isInline_of_not_isBlank fun _ => h.not_isBlank

theorem hasSurrogate_eq_false (h : IsWord t) : t.hasSurrogate = false := by
  rw [hasSurrogate, List.any_eq_false]
  intro c hc
  rcases h c hc with hn | rfl
  · rw [CodePoint.not_isSurrogate_of_isInName hn]
    exact Bool.false_ne_true
  · decide

theorem contains_zero (h : IsWord t) : t.contains 0 = false := by
  rw [List.contains_eq_mem, decide_eq_false_iff_not]
  exact fun hc => h.ne_of_mem hc (d := 0) (by decide) (by decide) rfl

theorem takeWhile_append (h : IsWord s) (t : Text) :
    (s ++ " " ++ t).takeWhile (fun c => !c.isBlank) = s := by
  have hstop : (ofString " " ++ t).takeWhile (fun c => !c.isBlank) = [] :=
    List.takeWhile_cons_of_neg (by decide)
  rw [List.append_assoc, List.takeWhile_append_of_pos fun c hc => by rw [h.not_isBlank hc]; rfl,
    hstop, List.append_nil]

theorem dropWhile_append (h : IsWord s) (t : Text) :
    (s ++ " " ++ t).dropWhile (fun c => !c.isBlank) = " " ++ t := by
  have hstop : (ofString " " ++ t).dropWhile (fun c => !c.isBlank) = " " ++ t :=
    List.dropWhile_cons_of_neg (by decide)
  rw [List.append_assoc, List.dropWhile_append_of_pos fun c hc => by rw [h.not_isBlank hc]; rfl,
    hstop]

end IsWord

section

variable (h : t.isIdentifier = true)

include h

theorem ne_nil_of_isIdentifier : t ≠ [] := by
  rintro rfl
  cases h

theorem exists_cons_of_isIdentifier : ∃ c s, t = c :: s ∧ c.isAnyDigit = false := by
  obtain ⟨c, s, rfl⟩ := List.exists_cons_of_ne_nil (ne_nil_of_isIdentifier h)
  rw [isIdentifier, Bool.and_eq_true] at h
  exact ⟨c, s, rfl, CodePoint.not_isAnyDigit_of_startsName h.1⟩

theorem isInName_of_mem {c : CodePoint} (hc : c ∈ t) : c.isInName = true := by
  cases t with
  | nil => cases hc
  | cons d t =>
    rw [isIdentifier, Bool.and_eq_true, List.all_eq_true] at h
    rcases List.mem_cons.1 hc with rfl | hc
    · rw [CodePoint.isInName, h.1, Bool.true_or]
    · exact h.2 c hc

theorem not_mem_of_isIdentifier {c : CodePoint} (hc : c.isInName = false) : c ∉ t := by
  intro hm
  rw [isInName_of_mem h hm] at hc
  cases hc

theorem isWord_of_isIdentifier : IsWord t := fun _ hc => .inl (isInName_of_mem h hc)

theorem isTight_of_isIdentifier : t.IsTight :=
  (isWord_of_isIdentifier h).isTight (ne_nil_of_isIdentifier h)

end

end Text

end RecordWire
