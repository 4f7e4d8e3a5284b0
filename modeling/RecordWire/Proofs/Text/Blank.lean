import Mathlib.Data.List.TakeWhile
import RecordWire.Text.Blank

/-!
Blanks at both ends of a text. What trimming leaves stands in the text as it is; blanks put around a
text that has none at its ends are trimmed away again.
-/

namespace RecordWire.Text

variable {s t : Text}

theorem exists_trimLeft (t : Text) :
    ∃ lead, t = lead ++ trimLeft t ∧ ∀ c ∈ lead, c.isBlank = true :=
  ⟨t.takeWhile CodePoint.isBlank, (List.takeWhile_append_dropWhile ..).symm,
    fun _ hc => List.mem_takeWhile_imp hc⟩

theorem exists_trimRight (t : Text) :
    ∃ tail, t = trimRight t ++ tail ∧ ∀ c ∈ tail, c.isBlank = true := by
  refine ⟨(t.reverse.takeWhile CodePoint.isBlank).reverse, ?_, fun c hc => ?_⟩
  · rw [trimRight, ← List.reverse_append, List.takeWhile_append_dropWhile, List.reverse_reverse]
  · exact List.mem_takeWhile_imp (List.mem_reverse.1 hc)

theorem trimLeft_takeWhile {p : CodePoint → Bool} (hp : ∀ c, c.isBlank = true → p c = true)
    (t : Text) : trimLeft (t.takeWhile p) = (trimLeft t).takeWhile p := by
  induction t with
  | nil => rfl
  | cons c t ih =>
    by_cases hc : c.isBlank = true
    · rw [List.takeWhile_cons_of_pos (hp c hc)]
      simpa only [trimLeft, List.dropWhile_cons_of_pos hc] using ih
    · have hstop : trimLeft (c :: t) = c :: t := List.dropWhile_cons_of_neg hc
      rw [hstop]
      by_cases hpc : p c = true
      · rw [List.takeWhile_cons_of_pos hpc]
        exact List.dropWhile_cons_of_neg hc
      · rw [List.takeWhile_cons_of_neg hpc]
        rfl

theorem trimLeft_append_of_blank (h : ∀ c ∈ s, c.isBlank = true) :
    trimLeft (s ++ t) = trimLeft t :=
  List.dropWhile_append_of_pos h

theorem trimRight_append_of_blank (h : ∀ c ∈ t, c.isBlank = true) :
    trimRight (s ++ t) = trimRight s := by
  rw [trimRight, List.reverse_append,
    List.dropWhile_append_of_pos fun c hc => h c (List.mem_reverse.1 hc), trimRight]

theorem countWords_of_not_isBlank (h : ∀ c ∈ t, c.isBlank = false) : countWords true t = 0 := by
  induction t with
  | nil => rfl
  | cons c t ih =>
    obtain ⟨hc, ht⟩ := List.forall_mem_cons.1 h
    rw [countWords, hc]
    exact ih ht

theorem countWords_eq_one (hne : t ≠ []) (h : ∀ c ∈ t, c.isBlank = false) :
    countWords false t = 1 := by
  obtain ⟨c, t, rfl⟩ := List.exists_cons_of_ne_nil hne
  obtain ⟨hc, ht⟩ := List.forall_mem_cons.1 h
  rw [countWords, hc]
  exact congrArg (· + 1) (countWords_of_not_isBlank ht)

/-- The text begins and ends with something that is not blank. -/
structure IsTight (t : Text) : Prop where
  ne_nil : t ≠ []
  head : ∀ c ∈ t.head?, c.isBlank = false
  last : ∀ c ∈ t.getLast?, c.isBlank = false

namespace IsTight

theorem trimLeft_append (h : IsTight t) (s : Text) : trimLeft (t ++ s) = t ++ s := by
  obtain ⟨c, t', rfl⟩ := List.exists_cons_of_ne_nil h.ne_nil
  exact List.dropWhile_cons_of_neg (by simp [h.head c rfl])

theorem trimLeft_eq (h : IsTight t) : trimLeft t = t := by
  simpa only [List.append_nil] using h.trimLeft_append []

theorem trimLeft_space (h : IsTight t) : trimLeft (" " ++ t) = t := by
  have hblank : trimLeft (" " ++ t) = trimLeft t := List.dropWhile_cons_of_pos (by decide)
  rw [hblank, h.trimLeft_eq]

theorem trimRight_append (h : IsTight t) (s : Text) : trimRight (s ++ t) = s ++ t := by
  obtain ⟨c, hc⟩ := Option.ne_none_iff_exists'.1 (mt List.getLast?_eq_none_iff.1 h.ne_nil)
  obtain ⟨t', rfl⟩ := List.getLast?_eq_some_iff.1 hc
  have hc : c.isBlank = false := h.last c hc
  rw [trimRight, ← List.append_assoc, List.reverse_append]
  simp [hc]

theorem trim_eq (h : IsTight t) {lead tail : Text} (hl : ∀ c ∈ lead, c.isBlank = true)
    (ht : ∀ c ∈ tail, c.isBlank = true) : trim (lead ++ t ++ tail) = t := by
  rw [trim, List.append_assoc, trimLeft_append_of_blank hl, h.trimLeft_append,
    trimRight_append_of_blank ht]
  exact h.trimRight_append []

theorem append_between (hs : IsTight s) (mid : Text) (ht : IsTight t) :
    IsTight (s ++ mid ++ t) where
  ne_nil := by simp [hs.ne_nil]
  head c hc := by
    obtain ⟨a, s', rfl⟩ := List.exists_cons_of_ne_nil hs.ne_nil
    exact hs.head c hc
  last c hc := by
    obtain ⟨b, hb⟩ := Option.ne_none_iff_exists'.1 (mt List.getLast?_eq_none_iff.1 ht.ne_nil)
    rw [List.getLast?_append, hb] at hc
    exact ht.last c (hb.trans hc)

theorem of_forall (hne : t ≠ []) (h : ∀ c ∈ t, c.isBlank = false) : IsTight t where
  ne_nil := hne
  head _ hc := h _ (List.mem_of_mem_head? hc)
  last _ hc := h _ (List.mem_of_mem_getLast? hc)

theorem of_all (h : (!t.isEmpty && t.all fun c => !c.isBlank) = true) : IsTight t := by
  rw [Bool.and_eq_true, Bool.not_eq_true', List.isEmpty_eq_false_iff, List.all_eq_true] at h
  exact of_forall h.1 fun c hc => by simpa using h.2 c hc

end IsTight

end RecordWire.Text
