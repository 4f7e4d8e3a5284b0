import Mathlib.Data.List.TakeDrop
import RecordWire.Codec.Collect
import RecordWire.Proofs.Text.Blank
import RecordWire.Proofs.Text.Parts
import RecordWire.Schema.Parser

/-!
What the scanners of a schema line make of it: each hands on parts of the line that it was given, in
their order, and the columns that it reports lie in the line.
-/

namespace RecordWire

open CodePoint (comma)

namespace Schema

/-- As many runs of digits as the number says, with points between them. -/
def IsVersion (n : Nat) (t : Text) : Prop :=
  ∃ parts : List Text, parts.length = n ∧ parts ≠ [] ∧ t = Text.join "." parts ∧
    ∀ p ∈ parts, p ≠ [] ∧ ∀ c ∈ p, c.isDigit = true

theorem isVersion_succ {n : Nat} {t : Text} : isVersion (n + 1) t = true ↔
    ∃ p rest, t = p ++ rest ∧ (p ≠ [] ∧ ∀ c ∈ p, c.isDigit = true) ∧
      (rest = [] ∧ n = 0 ∨ ∃ r, rest = CodePoint.ofChar '.' :: r ∧ isVersion n r = true) := by
  simp only [isVersion, List.span_eq_takeWhile_dropWhile, Bool.and_eq_true, Bool.not_eq_true',
    List.isEmpty_eq_false_iff]
  constructor
  · rintro ⟨hne, hrest⟩
    refine ⟨_, _, (List.takeWhile_append_dropWhile (p := CodePoint.isDigit) (l := t)).symm,
      ⟨hne, fun _ hc => List.mem_takeWhile_imp hc⟩, ?_⟩
    split at hrest
    · rename_i hnil
      exact .inl ⟨hnil, of_decide_eq_true hrest⟩
    · rename_i c r hr
      rw [Bool.and_eq_true, decide_eq_true_eq] at hrest
      obtain ⟨rfl, hrest⟩ := hrest
      exact .inr ⟨r, hr, hrest⟩
  · rintro ⟨p, rest, rfl, ⟨hne, hp⟩, hrest⟩
    rw [List.takeWhile_append_of_pos hp, List.dropWhile_append_of_pos hp]
    rcases hrest with ⟨rfl, rfl⟩ | ⟨r, rfl, hr⟩
    · simp [hne]
    · have hpoint : (CodePoint.ofChar '.').isDigit = false := by decide
      simp [hne, hpoint, hr]

theorem isVersion_iff {n : Nat} {t : Text} : isVersion n t = true ↔ IsVersion n t := by
  induction n generalizing t with
  | zero =>
    constructor
    · rintro ⟨⟩
    · rintro ⟨parts, hl, hne, -⟩
      exact absurd (List.length_eq_zero_iff.1 hl) hne
  | succ n ih =>
    rw [isVersion_succ]
    constructor
    · rintro ⟨p, rest, rfl, hp, ⟨rfl, rfl⟩ | ⟨r, rfl, hr⟩⟩
      · exact ⟨[p], rfl, by simp, List.append_nil p, List.forall_mem_singleton.2 hp⟩
      · obtain ⟨parts, hl, hne, rfl, hall⟩ := ih.1 hr
        refine ⟨p :: parts, by simp [hl], by simp, ?_, List.forall_mem_cons.2 ⟨hp, hall⟩⟩
        rw [Text.join_cons_of_ne_nil _ _ hne, List.append_assoc]
        rfl
    · rintro ⟨parts, hl, hne, rfl, hall⟩
      obtain ⟨p, ps, rfl⟩ := List.exists_cons_of_ne_nil hne
      obtain ⟨hp, hps⟩ := List.forall_mem_cons.1 hall
      rw [List.length_cons, Nat.add_right_cancel_iff] at hl
      by_cases hnil : ps = []
      · subst hnil
        exact ⟨p, [], (List.append_nil p).symm, hp, .inl ⟨rfl, hl.symm⟩⟩
      · refine ⟨p, _, ?_, hp, .inr ⟨Text.join "." ps, rfl, ih.2 ⟨ps, hl, hnil, rfl, hps⟩⟩⟩
        rw [Text.join_cons_of_ne_nil _ _ hnil, List.append_assoc]
        rfl

theorem stripComment_prefix (quoted : Bool) (t : Text) : stripComment quoted t <+: t := by
  induction t generalizing quoted with
  | nil => exact List.prefix_rfl
  | cons c t ih =>
    rw [stripComment]
    split
    · exact (List.prefix_cons_inj c).2 (ih _)
    · split
      · exact List.nil_prefix
      · exact (List.prefix_cons_inj c).2 (ih _)

/-- What is read of a line: no comment, and no blanks at its ends. -/
def body (raw : Text) : Text := Text.trimLeft (Text.trimRight (stripComment false raw))

def indentOf (raw : Text) : Nat :=
  (Text.trimRight (stripComment false raw)).length - (body raw).length

theorem exists_body (raw : Text) :
    ∃ lead tail, raw = lead ++ body raw ++ tail ∧ lead.length = indentOf raw := by
  obtain ⟨comment, hcomment⟩ := stripComment_prefix false raw
  obtain ⟨blanks, hblanks, -⟩ := Text.exists_trimRight (stripComment false raw)
  obtain ⟨lead, hlead, -⟩ := Text.exists_trimLeft (Text.trimRight (stripComment false raw))
  refine ⟨lead, blanks ++ comment, ?_, ?_⟩
  · rw [body, ← hlead, ← List.append_assoc, ← hblanks, hcomment]
  · have := congrArg List.length hlead
    rw [List.length_append] at this
    rw [indentOf, body]
    omega

namespace State

variable {source raw : Text} {number : Nat} {rest : List Text} {state : State}

theorem run_blank (h : body raw = []) :
    state.run source number (raw :: rest) = state.run source (number + 1) rest := by
  rw [run]
  exact if_pos (congrArg List.isEmpty h)

theorem run_ok {next : State} (h : body raw ≠ [])
    (hs : state.step number (indentOf raw) (body raw) = .ok next) :
    state.run source number (raw :: rest) = next.run source (number + 1) rest := by
  unfold indentOf body at hs
  rw [run, if_neg (by rwa [List.isEmpty_iff])]
  simp only [hs]

theorem run_error {e : Located} (h : body raw ≠ [])
    (hs : state.step number (indentOf raw) (body raw) = .error e) :
    state.run source number (raw :: rest) =
      .error ⟨e.problem, some source, number, e.column⟩ := by
  unfold indentOf body at hs
  rw [run, if_neg (by rwa [List.isEmpty_iff])]
  simp only [hs]

end State

theorem append_of_splitType {column depth : Nat} {t type rest : Text}
    (h : splitType column depth t = .ok (type, rest)) : type ++ rest = t := by
  induction t generalizing column depth type with
  | nil =>
    rw [splitType] at h
    split at h <;> cases h
    rfl
  | cons c t ih =>
    rw [splitType] at h
    split at h
    · cases h
    · split at h
      · cases h
        rfl
      · obtain ⟨⟨type', rest'⟩, hs, hp⟩ := map_eq_ok_iff.1 h
        cases hp
        rw [List.cons_append, ih hs]

theorem column_of_splitType {column depth : Nat} {t : Text} {e : Located}
    (h : splitType column depth t = .error e) : e.column ≤ column + t.length := by
  induction t generalizing column depth with
  | nil =>
    rw [splitType] at h
    split at h <;> cases h
    exact Nat.le_refl _
  | cons c t ih =>
    rw [splitType] at h
    rw [List.length_cons]
    split at h
    · cases h
      exact Nat.le_add_right _ _
    · split at h
      · cases h
      · have := ih (map_eq_error_iff.1 h)
        omega

theorem join_consPart (c : CodePoint) {parts : List Text} (h : parts ≠ []) :
    TypeExpr.consPart c parts ≠ [] ∧
      Text.join [comma] (TypeExpr.consPart c parts) = c :: Text.join [comma] parts := by
  cases parts with
  | nil => exact absurd rfl h
  | cons p ps => cases ps <;> exact ⟨by simp [TypeExpr.consPart], rfl⟩

theorem join_splitDeclarations {quoted : Bool} {t : Text} {segments : List Text}
    (h : splitDeclarations quoted t = some segments) :
    segments ≠ [] ∧ Text.join [comma] segments = t := by
  induction t generalizing quoted segments with
  | nil =>
    rw [splitDeclarations] at h
    split at h <;> cases h
    exact ⟨by simp, rfl⟩
  | cons c t ih =>
    rw [splitDeclarations] at h
    split at h
    · rename_i hc
      obtain ⟨parts, hparts, rfl⟩ := Option.map_eq_some_iff.1 h
      obtain ⟨hne, hjoin⟩ := ih hparts
      refine ⟨by simp, ?_⟩
      rw [Bool.and_eq_true, decide_eq_true_eq] at hc
      rw [Text.join_cons_of_ne_nil _ _ hne, hjoin, hc.1]
      rfl
    · obtain ⟨parts, hparts, rfl⟩ := Option.map_eq_some_iff.1 h
      obtain ⟨hne, hjoin⟩ := ih hparts
      rw [← hjoin]
      exact join_consPart c hne

end Schema

end RecordWire
