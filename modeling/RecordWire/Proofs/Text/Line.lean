import RecordWire.Proofs.Text.Parts
import RecordWire.Text.Blank
import RecordWire.Text.Line

/-!
Lines joined by line feeds, and found again.
-/

namespace RecordWire

theorem CodePoint.not_isLineEnd_of_not_isBlank {c : CodePoint} (h : c.isBlank = false) :
    c.isLineEnd = false := by
  rw [← Bool.not_eq_true] at h ⊢
  refine mt (fun hl => ?_) h
  simp only [isLineEnd, isBlank, Bool.or_eq_true, Bool.and_eq_true, decide_eq_true_eq,
    beq_iff_eq] at hl ⊢
  omega

namespace Text

def IsInline (t : Text) : Prop := ∀ c ∈ t, c.isLineEnd = false

instance : DecidablePred IsInline := fun t =>
  decidable_of_iff ((t.all fun c => !c.isLineEnd) = true) (by simp [IsInline])

theorem IsInline.append {s t : Text} (hs : s.IsInline) (ht : t.IsInline) : IsInline (s ++ t) :=
  fun c hc => (List.mem_append.1 hc).elim (hs c) (ht c)

theorem isInline_of_not_isBlank {t : Text} (h : ∀ c ∈ t, c.isBlank = false) : t.IsInline :=
  fun c hc => CodePoint.not_isLineEnd_of_not_isBlank (h c hc)

theorem lines_of_isInline {l : Text} (h : l.IsInline) (hne : l ≠ []) : lines l = [l] := by
  induction l with
  | nil => exact absurd rfl hne
  | cons c l ih =>
    have hc : c.isLineEnd = false := h c List.mem_cons_self
    cases l with
    | nil => simp [lines, hc]
    | cons d l =>
      have hreturn : c ≠ 0x0D := by
        rintro rfl
        cases hc
      rw [lines, ih (fun x hx => h x (List.mem_cons_of_mem c hx)) (by simp)]
      simp [hc, hreturn, consLine]

theorem lines_append {l : Text} (h : l.IsInline) (t : Text) :
    lines (l ++ CodePoint.lineFeed :: t) = l :: lines t := by
  induction l with
  | nil =>
    cases t with
    | nil => rfl
    | cons d t =>
      rw [List.nil_append, lines, if_neg (by simp [CodePoint.lineFeed]), if_pos (by decide)]
  | cons c l ih =>
    have hc : c.isLineEnd = false := h c List.mem_cons_self
    have hreturn : c ≠ 0x0D := by
      rintro rfl
      cases hc
    have hrest := ih fun x hx => h x (List.mem_cons_of_mem c hx)
    obtain ⟨d, r, hdr⟩ : ∃ d r, l ++ CodePoint.lineFeed :: t = d :: r :=
      List.exists_cons_of_ne_nil (by simp)
    rw [List.cons_append, hdr, lines, ← hdr, hrest]
    simp [hc, hreturn, consLine]

/-- Lines that are joined by line feeds are the lines of the text, unless the last of them is empty. -/
theorem lines_join {ls : List Text} (h : ∀ l ∈ ls, l.IsInline ∧ l ≠ []) :
    lines (join [CodePoint.lineFeed] ls) = ls := by
  induction ls with
  | nil => rfl
  | cons l ls ih =>
    obtain ⟨⟨hl, hne⟩, hls⟩ := List.forall_mem_cons.1 h
    by_cases hnil : ls = []
    · subst hnil
      exact lines_of_isInline hl hne
    · rw [join_cons_of_ne_nil _ _ hnil, List.append_assoc, List.singleton_append,
        lines_append hl, ih hls]

theorem exists_lines_join {ls : List Text} (h : ∀ l ∈ ls, l.IsInline) :
    ∃ rest, ls = lines (join [CodePoint.lineFeed] ls) ++ rest ∧ ∀ l ∈ rest, l = [] := by
  induction ls with
  | nil => exact ⟨[], rfl, List.forall_mem_nil _⟩
  | cons l ls ih =>
    obtain ⟨hl, hls⟩ := List.forall_mem_cons.1 h
    by_cases hnil : ls = []
    · subst hnil
      by_cases hempty : l = []
      · subst hempty
        exact ⟨[[]], rfl, List.forall_mem_singleton.2 rfl⟩
      · refine ⟨[], ?_, List.forall_mem_nil _⟩
        rw [join, lines_of_isInline hl hempty, List.append_nil]
    · obtain ⟨rest, hrest, hempty⟩ := ih hls
      refine ⟨rest, ?_, hempty⟩
      rw [join_cons_of_ne_nil _ _ hnil, List.append_assoc, List.singleton_append, lines_append hl,
        List.cons_append, ← hrest]

end Text

end RecordWire
