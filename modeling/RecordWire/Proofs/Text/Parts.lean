import RecordWire.Text.Basic

/-!
Texts divided at a code point, and joined again.
-/

namespace RecordWire.Text

variable {s t : Text} {c : CodePoint}

theorem join_cons_of_ne_nil (separator p : Text) {ps : List Text} (h : ps ≠ []) :
    join separator (p :: ps) = p ++ separator ++ join separator ps := by
  cases ps with
  | nil => exact absurd rfl h
  | cons q qs => rfl

theorem mem_join {separator : Text} {ps : List Text} (h : c ∈ join separator ps) :
    c ∈ separator ∨ ∃ p ∈ ps, c ∈ p := by
  induction ps with
  | nil => cases h
  | cons p ps ih =>
    by_cases hps : ps = []
    · subst hps
      exact .inr ⟨p, List.mem_cons_self, h⟩
    · rw [join_cons_of_ne_nil _ _ hps, List.mem_append, List.mem_append] at h
      rcases h with (h | h) | h
      · exact .inr ⟨p, List.mem_cons_self, h⟩
      · exact .inl h
      · exact (ih h).imp_right fun ⟨q, hq, hc⟩ => ⟨q, List.mem_cons_of_mem p hq, hc⟩

theorem join_splitOn (c : CodePoint) (t : Text) : join [c] (splitOn c t) = t := by
  induction t with
  | nil => rfl
  | cons d t ih =>
    rw [splitOn]
    split
    · rename_i hd
      rw [join_cons_of_ne_nil _ _ (splitOn_ne_nil c t), ih, hd]
      rfl
    · split
      · rename_i hnil
        exact absurd hnil (splitOn_ne_nil c t)
      · rename_i p ps hps
        rw [hps] at ih
        rw [← ih]
        cases ps <;> rfl

theorem splitOn_of_not_mem (h : c ∉ t) : splitOn c t = [t] := by
  induction t with
  | nil => rfl
  | cons d t ih =>
    rw [List.mem_cons, not_or] at h
    rw [splitOn, if_neg (Ne.symm h.1), ih h.2]

theorem splitOn_append (h : c ∉ s) (t : Text) : splitOn c (s ++ c :: t) = s :: splitOn c t := by
  induction s with
  | nil => rw [List.nil_append, splitOn, if_pos rfl]
  | cons d s ih =>
    rw [List.mem_cons, not_or] at h
    rw [List.cons_append, splitOn, if_neg (Ne.symm h.1), ih h.2]

end RecordWire.Text
