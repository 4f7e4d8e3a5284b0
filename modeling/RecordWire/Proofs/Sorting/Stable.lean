import Mathlib.Order.Lattice
import Mathlib.Data.List.Basic

/-!
What a stable sort is. Values have ranks in a linear order, and those of one rank form a fiber. A
list is sorted stably if the ranks ascend and every fiber is in the order in which it came. There is
at most one such list.
-/

namespace RecordWire.Sorting

variable {α β : Type} [LinearOrder β] (rank : α → β)

def Ascending (xs : List α) : Prop := xs.Pairwise fun a b => rank a ≤ rank b

/-- The values of a rank, in the order of the list. -/
def fiber (r : β) (xs : List α) : List α := xs.filter fun x => decide (rank x = r)

/-- The same values, those of one rank in the same order. -/
def SameFibers (xs ys : List α) : Prop := ∀ r, fiber rank r xs = fiber rank r ys

variable {rank} {xs ys zs ws : List α} {r : β}

theorem fiber_cons_of_eq {x : α} (h : rank x = r) :
    fiber rank r (x :: xs) = x :: fiber rank r xs := by
  simp [fiber, h]

theorem fiber_cons_of_ne {x : α} (h : rank x ≠ r) :
    fiber rank r (x :: xs) = fiber rank r xs := by
  simp [fiber, h]

@[simp] theorem fiber_append : fiber rank r (xs ++ ys) = fiber rank r xs ++ fiber rank r ys := by
  simp [fiber]

@[simp] theorem fiber_reverse : fiber rank r xs.reverse = (fiber rank r xs).reverse := by
  simp [fiber]

theorem fiber_eq_nil (h : ∀ x ∈ xs, rank x ≠ r) : fiber rank r xs = [] := by
  simpa [fiber] using h

namespace SameFibers

theorem refl (xs : List α) : SameFibers rank xs xs := fun _ => rfl

theorem trans (h₁ : SameFibers rank xs ys) (h₂ : SameFibers rank ys zs) : SameFibers rank xs zs :=
  fun r => (h₁ r).trans (h₂ r)

theorem append (h₁ : SameFibers rank xs ys) (h₂ : SameFibers rank zs ws) :
    SameFibers rank (xs ++ zs) (ys ++ ws) := fun r => by
  rw [fiber_append, fiber_append, h₁ r, h₂ r]

theorem perm (h : SameFibers rank xs ys) : xs.Perm ys := by
  classical
  refine List.perm_iff_count.2 fun a => ?_
  have hc : ∀ l : List α, (fiber rank (rank a) l).count a = l.count a := fun l =>
    List.count_filter (by simp)
  rw [← hc xs, h (rank a), hc ys]

theorem tail {x : α} (h : SameFibers rank (x :: xs) (x :: ys)) :
    SameFibers rank xs ys := fun r => by
  have hr := h r
  by_cases hx : rank x = r
  · rw [fiber_cons_of_eq hx, fiber_cons_of_eq hx] at hr
    exact List.tail_eq_of_cons_eq hr
  · rwa [fiber_cons_of_ne hx, fiber_cons_of_ne hx] at hr

end SameFibers

theorem sameFibers_append_comm (h : ∀ x ∈ xs, ∀ y ∈ ys, rank x < rank y) :
    SameFibers rank (xs ++ ys) (ys ++ xs) := fun r => by
  rw [fiber_append, fiber_append]
  rcases hx : fiber rank r xs with - | ⟨x, l⟩
  · simp
  · have hmem : x ∈ fiber rank r xs := by simp [hx]
    obtain ⟨hmem, hr⟩ : x ∈ xs ∧ rank x = r := by simpa [fiber] using hmem
    have hy : fiber rank r ys = [] := fiber_eq_nil fun y hy => hr ▸ (h x hmem y hy).ne'
    simp [hy]

theorem Ascending.tail {x : α} (h : Ascending rank (x :: xs)) : Ascending rank xs :=
  (List.pairwise_cons.1 h).2

theorem Ascending.head_le {x y : α} (h : Ascending rank (x :: xs)) (hy : y ∈ x :: xs) :
    rank x ≤ rank y := by
  rcases List.mem_cons.1 hy with rfl | hy
  · exact le_refl _
  · exact (List.pairwise_cons.1 h).1 y hy

theorem Ascending.take (h : Ascending rank xs) (n : Nat) : Ascending rank (xs.take n) :=
  h.sublist (List.take_sublist n xs)

theorem Ascending.drop (h : Ascending rank xs) (n : Nat) : Ascending rank (xs.drop n) :=
  h.sublist (List.drop_sublist n xs)

theorem Ascending.take_le_getElem (h : Ascending rank xs) {n : Nat} (hn : n < xs.length) :
    ∀ x ∈ xs.take (n + 1), rank x ≤ rank xs[n] := by
  intro x hx
  obtain ⟨i, hi, rfl⟩ := List.mem_take_iff_getElem.1 hx
  rcases Nat.lt_or_eq_of_le (show i ≤ n by omega) with hlt | rfl
  · exact List.pairwise_iff_getElem.1 h i n (by omega) hn hlt
  · exact le_refl _

theorem Ascending.getElem_le_drop (h : Ascending rank xs) {n : Nat} (hn : n < xs.length) :
    ∀ x ∈ xs.drop n, rank xs[n] ≤ rank x := by
  rw [List.drop_eq_getElem_cons hn]
  have hd := h.drop n
  rw [List.drop_eq_getElem_cons hn] at hd
  exact fun x hx => hd.head_le hx

theorem Ascending.le_getLast {x : α} (h : Ascending rank xs) (hx : x ∈ xs) :
    rank x ≤ rank (xs.getLast (List.ne_nil_of_mem hx)) := by
  induction xs with
  | nil => simp at hx
  | cons y ys ih =>
    rcases List.mem_cons.1 hx with rfl | hx
    · exact h.head_le (List.getLast_mem _)
    · rw [List.getLast_cons (List.ne_nil_of_mem hx)]
      exact ih h.tail hx

theorem Ascending.append (h₁ : Ascending rank xs) (h₂ : Ascending rank ys)
    (h : ∀ x ∈ xs, ∀ y ∈ ys, rank x ≤ rank y) : Ascending rank (xs ++ ys) :=
  List.pairwise_append.2 ⟨h₁, h₂, h⟩

theorem eq_of_sameFibers (hx : Ascending rank xs) (hy : Ascending rank ys)
    (h : SameFibers rank xs ys) : xs = ys := by
  induction xs generalizing ys with
  | nil => exact h.perm.nil_eq
  | cons x xs ih =>
    cases ys with
    | nil => exact h.perm.eq_nil
    | cons y ys =>
      have hr : rank x = rank y := le_antisymm
        (hx.head_le (h.perm.mem_iff.2 List.mem_cons_self))
        (hy.head_le (h.perm.mem_iff.1 List.mem_cons_self))
      have hf := h (rank x)
      rw [fiber_cons_of_eq rfl, fiber_cons_of_eq hr.symm] at hf
      obtain rfl := List.head_eq_of_cons_eq hf
      rw [ih hx.tail hy.tail h.tail]

/-- Values that are in strictly descending order are in ascending order the other way around, and no
two are of one rank. -/
theorem sameFibers_reverse_of_descending (h : xs.Pairwise fun a b => rank b < rank a) :
    Ascending rank xs.reverse ∧ SameFibers rank xs.reverse xs := by
  refine ⟨List.pairwise_reverse.2 (h.imp le_of_lt), fun r => ?_⟩
  have hd : (fiber rank r xs).Pairwise fun a b => rank b < rank a := h.filter _
  rw [fiber_reverse]
  -- A fiber in strictly descending order has no room for two values.
  match hf : fiber rank r xs with
  | [] => rfl
  | [x] => rfl
  | x :: y :: l =>
    have hr : ∀ z ∈ fiber rank r xs, rank z = r := by
      intro z hz
      simpa using (List.mem_filter.1 hz).2
    have hx : rank x = r := hr x (by simp [hf])
    have hy : rank y = r := hr y (by simp [hf])
    rw [hf] at hd
    have hlt := (List.pairwise_cons.1 hd).1 y List.mem_cons_self
    rw [hx, hy] at hlt
    exact absurd hlt (lt_irrefl r)

def interleave (rank : α → β) (xs ys : List α) : List α :=
  List.merge xs ys fun x y => decide (rank x < rank y)

@[simp] theorem interleave_nil_left : interleave rank [] ys = ys := by simp [interleave]

@[simp] theorem interleave_nil_right : interleave rank xs [] = xs := by simp [interleave]

theorem interleave_of_lt {x y : α} (h : rank x < rank y) :
    interleave rank (x :: xs) (y :: ys) = x :: interleave rank xs (y :: ys) := by
  simp [interleave, h]

theorem interleave_of_le {x y : α} (h : rank y ≤ rank x) :
    interleave rank (x :: xs) (y :: ys) = y :: interleave rank (x :: xs) ys := by
  simp [interleave, not_lt.2 h]

theorem mem_interleave {z : α} : z ∈ interleave rank xs ys ↔ z ∈ xs ∨ z ∈ ys := List.mem_merge

theorem interleave_append_left {y : α} (h : ∀ x ∈ xs, rank x < rank y) :
    interleave rank (xs ++ zs) (y :: ys) = xs ++ interleave rank zs (y :: ys) := by
  induction xs with
  | nil => rfl
  | cons x xs ih =>
    rw [List.cons_append, interleave_of_lt (h x List.mem_cons_self),
      ih fun z hz => h z (List.mem_cons_of_mem _ hz), List.cons_append]

theorem interleave_append_right {x : α} (h : ∀ y ∈ ys, rank y ≤ rank x) :
    interleave rank (x :: xs) (ys ++ zs) = ys ++ interleave rank (x :: xs) zs := by
  induction ys with
  | nil => rfl
  | cons y ys ih =>
    rw [List.cons_append, interleave_of_le (h y List.mem_cons_self),
      ih fun z hz => h z (List.mem_cons_of_mem _ hz), List.cons_append]

theorem ascending_interleave (hx : Ascending rank xs) (hy : Ascending rank ys) :
    Ascending rank (interleave rank xs ys) := by
  induction xs generalizing ys with
  | nil => simpa using hy
  | cons x xs ihx =>
    induction ys with
    | nil => simpa using hx
    | cons y ys ihy =>
      rcases lt_or_ge (rank x) (rank y) with h | h
      · rw [interleave_of_lt h]
        refine List.pairwise_cons.2 ⟨fun z hz => ?_, ihx hx.tail hy⟩
        rcases mem_interleave.1 hz with hz | hz
        · exact hx.head_le (List.mem_cons_of_mem _ hz)
        · exact h.le.trans (hy.head_le hz)
      · rw [interleave_of_le h]
        refine List.pairwise_cons.2 ⟨fun z hz => ?_, ihy hy.tail⟩
        rcases mem_interleave.1 hz with hz | hz
        · exact h.trans (hx.head_le hz)
        · exact hy.head_le (List.mem_cons_of_mem _ hz)

theorem fiber_interleave (hy : Ascending rank ys) :
    fiber rank r (interleave rank xs ys) = fiber rank r (ys ++ xs) := by
  induction xs generalizing ys with
  | nil => simp
  | cons x xs ihx =>
    induction ys with
    | nil => simp
    | cons y ys ihy =>
      rcases lt_or_ge (rank x) (rank y) with h | h
      · rw [interleave_of_lt h]
        by_cases hr : rank x = r
        · -- Nothing of the second list is of the rank of what goes before all of it.
          have hf : fiber rank r (y :: ys) = [] := fiber_eq_nil fun z hz he => by
            have := h.trans_le (hy.head_le hz)
            rw [hr, he] at this
            exact lt_irrefl r this
          rw [fiber_cons_of_eq hr, ihx hy, fiber_append, fiber_append, hf, fiber_cons_of_eq hr]
          rfl
        · rw [fiber_cons_of_ne hr, ihx hy, fiber_append, fiber_append, fiber_cons_of_ne hr]
      · rw [interleave_of_le h, List.cons_append]
        by_cases hr : rank y = r
        · rw [fiber_cons_of_eq hr, fiber_cons_of_eq hr, ihy hy.tail]
        · rw [fiber_cons_of_ne hr, fiber_cons_of_ne hr, ihy hy.tail]

end RecordWire.Sorting
