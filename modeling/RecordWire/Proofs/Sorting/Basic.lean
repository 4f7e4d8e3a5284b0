import Mathlib.Data.List.Nodup
import RecordWire.Proofs.Sorting.Run
import RecordWire.Sorting.Basic

/-!
Sorting by an order that ranks define is stable, and has a result. The runs that wait on the stack
are in ascending order each, and together hold what has been taken in so far; merging two neighbours
keeps both facts. So the powers only say which neighbours are merged first.
-/

namespace RecordWire

namespace Sorting

variable {α β : Type} [LinearOrder β] {before? : α → α → Option Bool} {rank : α → β}

/-- The values of the runs of a stack, whose last run comes first, in the order of the list. -/
def spread : List (Pending α) → List α
  | [] => []
  | p :: runs => spread runs ++ p.items

/-- The runs of a stack are in ascending order, and hold the values of a list. -/
structure Holds (rank : α → β) (runs : List (Pending α)) (xs : List α) : Prop where
  ascending : ∀ p ∈ runs, Ascending rank p.items
  fibers : SameFibers rank (spread runs) xs

theorem Holds.mem_of_mem_items {runs : List (Pending α)} {xs : List α} (h : Holds rank runs xs)
    {p : Pending α} (hp : p ∈ runs) : p.items ⊆ xs := by
  refine fun x hx => h.fibers.perm.mem_iff.1 ?_
  clear h
  induction runs with
  | nil => simp at hp
  | cons q runs ih =>
    rcases List.mem_cons.1 hp with rfl | hp
    · exact List.mem_append_right _ hx
    · exact List.mem_append_left _ (ih hp)

theorem mergePending?_eq {p q : Pending α} (h : Ranks before? rank (p.items ++ q.items))
    (hp : Ascending rank p.items) (hq : Ascending rank q.items) (patience : Nat) :
    ∃ merged n, mergePending? before? patience p q = some (merged, n) ∧
      IsMerge rank p.items q.items merged.items := by
  obtain ⟨zs, n, hzs, hm⟩ := merge?_eq h hp hq patience
  exact ⟨⟨zs, p.start, q.power⟩, n, by simp only [mergePending?, hzs, Option.map_some], hm⟩

theorem Holds.merge (above : List (Pending α)) {runs : List (Pending α)} {p q : Pending α}
    {xs : List α} (hr : Ranks before? rank xs) (h : Holds rank (above ++ q :: p :: runs) xs)
    (patience : Nat) :
    ∃ merged n, mergePending? before? patience p q = some (merged, n) ∧
      Holds rank (above ++ merged :: runs) xs := by
  have hq := h.ascending q (by simp)
  have hp := h.ascending p (by simp)
  have hsub : p.items ++ q.items ⊆ xs :=
    List.append_subset.2 ⟨h.mem_of_mem_items (by simp), h.mem_of_mem_items (by simp)⟩
  obtain ⟨merged, n, hm, ha, hf⟩ := mergePending?_eq (hr.mono hsub) hp hq patience
  refine ⟨merged, n, hm, fun r hmem => ?_, .trans ?_ h.fibers⟩
  · rcases List.mem_append.1 hmem with hmem | hmem
    · exact h.ascending r (List.mem_append_left _ hmem)
    · rcases List.mem_cons.1 hmem with rfl | hmem
      · exact ha
      · exact h.ascending r (by simp [hmem])
  · clear h
    induction above with
    | nil =>
      have hruns : SameFibers rank (spread runs) (spread runs) := .refl _
      have := hruns.append hf
      rwa [← List.append_assoc] at this
    | cons a above ih => exact ih.append (.refl _)

theorem Holds.withPower {last : Pending α} {runs : List (Pending α)} {xs : List α}
    (h : Holds rank (last :: runs) xs) (power : Nat) :
    Holds rank ({ last with power := power } :: runs) xs :=
  ⟨List.forall_mem_cons.2 (List.forall_mem_cons.1 h.ascending), h.fibers⟩

theorem collapse?_eq {xs : List α} (hr : Ranks before? rank xs) (power patience : Nat)
    {last : Pending α} {runs : List (Pending α)} (h : Holds rank (last :: runs) xs) :
    ∃ stack, collapse? before? power patience last runs = some stack ∧
      Holds rank stack.runs xs := by
  induction runs generalizing last patience with
  | nil => exact ⟨_, rfl, h.withPower power⟩
  | cons p runs ih =>
    unfold collapse?
    split
    · obtain ⟨merged, n, hm, hh⟩ := Holds.merge [] hr h patience
      rw [hm]
      exact ih n hh
    · exact ⟨_, rfl, h.withPower power⟩

theorem push?_eq {xs items : List α} (hr : Ranks before? rank (xs ++ items))
    (hi : Ascending rank items) {stack : Stack α} (h : Holds rank stack.runs xs)
    (total start : Nat) : ∃ stack', push? before? total stack start items = some stack' ∧
      Holds rank stack'.runs (xs ++ items) := by
  have hadd : ∀ {runs : List (Pending α)}, Holds rank runs xs →
      Holds rank (⟨items, start, 0⟩ :: runs) (xs ++ items) := fun hh =>
    ⟨List.forall_mem_cons.2 ⟨hi, hh.ascending⟩, hh.fibers.append (.refl items)⟩
  unfold push?
  split
  · rename_i he
    rw [he] at h
    exact ⟨_, rfl, hadd h⟩
  · rename_i last runs he
    rw [he] at h
    obtain ⟨stack', hs, hh⟩ := collapse?_eq (hr.mono (List.subset_append_left _ _))
      (borderPower last items.length total) stack.patience h
    rw [hs]
    exact ⟨_, rfl, hadd hh⟩

theorem pushAll?_eq (least total : Nat) {fuel : Nat} {done xs : List α}
    (hr : Ranks before? rank (done ++ xs)) (hf : xs.length ≤ fuel) (start : Nat) {stack : Stack α}
    (h : Holds rank stack.runs done) :
    ∃ stack', pushAll? before? least total fuel start stack xs = some stack' ∧
      Holds rank stack'.runs (done ++ xs) := by
  induction fuel generalizing done xs start stack with
  | zero =>
    obtain rfl : xs = [] := List.length_eq_zero_iff.1 (by omega)
    exact ⟨stack, rfl, by simpa using h⟩
  | succ fuel ih =>
    cases xs with
    | nil => exact ⟨stack, rfl, by simpa using h⟩
    | cons x xs =>
      obtain ⟨run, rest, hrun, ⟨ha, hfib⟩, hne⟩ :=
        firstRun?_eq least (hr.mono (List.subset_append_right done (x :: xs)))
      have hfib' : SameFibers rank (done ++ run ++ rest) (done ++ x :: xs) := by
        rw [List.append_assoc]
        exact (SameFibers.refl done).append hfib
      have hr' : Ranks before? rank (done ++ run ++ rest) := hr.mono hfib'.perm.subset
      obtain ⟨stack', hpush, hh⟩ :=
        push?_eq (hr'.mono (List.subset_append_left _ _)) ha h total start
      have hlength : rest.length ≤ fuel := by
        have hl := hfib.perm.length_eq
        have := List.length_pos_iff.2 (hne (List.cons_ne_nil x xs))
        rw [List.length_append] at hl
        omega
      obtain ⟨last, hlast, hl⟩ := ih hr' hlength (start + run.length) hh
      refine ⟨last, ?_, hl.ascending, hl.fibers.trans hfib'⟩
      simp only [pushAll?, hrun, hpush, hlast]

theorem mergeAll?_eq {xs : List α} (hr : Ranks before? rank xs) {fuel : Nat} (patience : Nat)
    {runs : List (Pending α)} (hf : runs.length ≤ fuel + 1) (h : Holds rank runs xs) :
    ∃ ys, mergeAll? before? fuel patience runs = some ys ∧ Ascending rank ys ∧
      SameFibers rank ys xs := by
  induction fuel generalizing patience runs with
  | zero =>
    match runs with
    | [] => exact ⟨[], rfl, .nil, h.fibers⟩
    | [p] => exact ⟨p.items, rfl, h.ascending p (by simp), h.fibers⟩
    | q :: p :: runs => simp at hf
  | succ fuel ih =>
    match runs with
    | [] => exact ⟨[], rfl, .nil, h.fibers⟩
    | [p] => exact ⟨p.items, rfl, h.ascending p (by simp), h.fibers⟩
    | [r, q] =>
      obtain ⟨merged, n, hm, hh⟩ := Holds.merge [] hr h patience
      simp only [mergeAll?, hm]
      exact ih n (by simp) hh
    | r :: q :: p :: runs =>
      unfold mergeAll?
      split
      · obtain ⟨merged, n, hm, hh⟩ := Holds.merge [r] hr h patience
        rw [hm]
        exact ih n (by simpa using hf) hh
      · obtain ⟨merged, n, hm, hh⟩ := Holds.merge [] hr h patience
        rw [hm]
        exact ih n (by simpa using hf) hh

end Sorting

open Sorting

variable {α β : Type} [LinearOrder β] {before? : α → α → Option Bool} {rank : α → β} {xs : List α}

/-- Sorting by ranks has a result, in which the ranks ascend and values of one rank keep their
order. -/
theorem sort?_eq (h : Ranks before? rank xs) :
    ∃ ys, sort? before? xs = some ys ∧ Ascending rank ys ∧ SameFibers rank ys xs := by
  have hempty : Holds rank ({} : Stack α).runs ([] : List α) := ⟨by simp, .refl _⟩
  have h₀ : Ranks before? rank ([] ++ xs) := h
  obtain ⟨stack, hs, hh⟩ := pushAll?_eq (leastRun xs.length) xs.length h₀ (Nat.le_refl xs.length) 0
    hempty
  obtain ⟨ys, hy, ha, hf⟩ := mergeAll?_eq h stack.patience (Nat.le_succ _) hh
  exact ⟨ys, by simp only [sort?, hs, hy], ha, hf⟩

theorem sort?_of_ascending (h : Ranks before? rank xs) (ha : Ascending rank xs) :
    sort? before? xs = some xs := by
  obtain ⟨ys, hs, hy, hf⟩ := sort?_eq h
  rw [hs, eq_of_sameFibers hy ha hf]

theorem sort?_eq_of_perm {ys : List α} (h : Ranks before? rank xs) (hd : (xs.map rank).Nodup)
    (hp : xs.Perm ys) : sort? before? xs = sort? before? ys := by
  obtain ⟨zs, hs, hz, hzf⟩ := sort?_eq h
  obtain ⟨ws, hs', hw, hwf⟩ := sort?_eq (h.mono hp.symm.subset)
  have hantisymm : ∀ a b, a ∈ zs → b ∈ ws → rank a ≤ rank b → rank b ≤ rank a → a = b := by
    intro a b ha hb hab hba
    have hb' := hp.mem_iff.2 (hwf.perm.mem_iff.1 hb)
    exact List.inj_on_of_nodup_map hd (hzf.perm.mem_iff.1 ha) hb' (le_antisymm hab hba)
  have heq : zs = ws :=
    List.Perm.eq_of_pairwise hantisymm hz hw ((hzf.perm.trans hp).trans hwf.perm.symm)
  rw [hs, hs', heq]

end RecordWire
