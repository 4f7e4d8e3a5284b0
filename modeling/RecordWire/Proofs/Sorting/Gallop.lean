import RecordWire.Sorting.Gallop

/-!
Galloping finds the start of a list that has a property, if the property is lost once and for all.
-/

namespace RecordWire.Sorting

variable {α : Type} {p : α → Bool} {xs : List α}

/-- The property is not regained: what has it stands before everything that has it not. -/
def Fades (p : α → Bool) (xs : List α) : Prop := xs.Pairwise fun a b => p b = true → p a = true

/-- The first values of the list have the property, the others have it not. -/
def Splits (p : α → Bool) (xs : List α) (n : Nat) : Prop :=
  (∀ x ∈ xs.take n, p x = true) ∧ ∀ x ∈ xs.drop n, p x = false

namespace Fades

theorem take_of_getElem (hp : Fades p xs) {i : Nat} {x : α} (hi : xs[i]? = some x)
    (hx : p x = true) : ∀ z ∈ xs.take (i + 1), p z = true := by
  obtain ⟨hl, rfl⟩ := List.getElem?_eq_some_iff.1 hi
  intro z hz
  obtain ⟨j, hj, rfl⟩ := List.mem_take_iff_getElem.1 hz
  by_cases hji : j = i
  · subst hji
    exact hx
  · exact List.pairwise_iff_getElem.1 hp j i (by omega) hl (by omega) hx

theorem drop_of_getElem (hp : Fades p xs) {i : Nat} {x : α} (hi : xs[i]? = some x)
    (hx : p x = false) : ∀ z ∈ xs.drop i, p z = false := by
  obtain ⟨hl, rfl⟩ := List.getElem?_eq_some_iff.1 hi
  intro z hz
  obtain ⟨j, hj, rfl⟩ := List.mem_drop_iff_getElem.1 hz
  refine Bool.eq_false_iff.2 fun h => ?_
  by_cases hj0 : j = 0
  · subst hj0
    simp_all
  · have := List.pairwise_iff_getElem.1 hp i (i + j) hl (by omega) (by omega) h
    rw [hx] at this
    cases this

end Fades

section

variable {holds? : α → Option Bool} (h : ∀ x ∈ xs, holds? x = some (p x)) (hp : Fades p xs)

include h hp

theorem leap?_eq {low high : Nat} (hl : low ≤ high) (hn : low ≤ xs.length)
    (hlow : ∀ x ∈ xs.take low, p x = true) : ∃ m n, leap? holds? xs low high = some (m, n) ∧
      m ≤ n ∧ n ≤ xs.length ∧ (∀ x ∈ xs.take m, p x = true) ∧ ∀ x ∈ xs.drop n, p x = false := by
  fun_induction leap? holds? xs low high with
  | case1 low high => exact ⟨low, xs.length, rfl, hn, Nat.le_refl _, hlow, by simp⟩
  | case2 low high x hx hu => rw [h x (List.mem_of_getElem? hx)] at hu; cases hu
  | case3 low high x hx hu =>
    rw [h x (List.mem_of_getElem? hx)] at hu
    have hlt := (List.getElem?_eq_some_iff.1 hx).1
    exact ⟨low, high, rfl, hl, by omega, hlow, hp.drop_of_getElem hx (Option.some.inj hu)⟩
  | case4 low high x hx hu ih =>
    rw [h x (List.mem_of_getElem? hx)] at hu
    have hlt := (List.getElem?_eq_some_iff.1 hx).1
    exact ih (by omega) (by omega) (hp.take_of_getElem hx (Option.some.inj hu))

theorem halve?_eq (fromBack : Bool) {low high : Nat} (hl : low ≤ high) (hn : high ≤ xs.length)
    (hlow : ∀ x ∈ xs.take low, p x = true) (hhigh : ∀ x ∈ xs.drop high, p x = false) :
    ∃ n, halve? holds? fromBack xs low high = some n ∧ Splits p xs n := by
  have hmid : ∀ low high, low < high →
      low ≤ middle fromBack low high ∧ middle fromBack low high < high := by
    intro low high hlt
    simp only [middle]
    split <;> omega
  fun_induction halve? holds? fromBack xs low high with
  | case1 low high hlt hx =>
    have := hmid low high hlt
    have := List.getElem?_eq_none_iff.1 hx
    omega
  | case2 low high hlt x hx hu => rw [h x (List.mem_of_getElem? hx)] at hu; cases hu
  | case3 low high hlt x hx hu ih =>
    rw [h x (List.mem_of_getElem? hx)] at hu
    have := hmid low high hlt
    exact ih (by omega) hn (hp.take_of_getElem hx (Option.some.inj hu)) hhigh
  | case4 low high hlt x hx hu ih =>
    rw [h x (List.mem_of_getElem? hx)] at hu
    have := hmid low high hlt
    exact ih this.1 (by omega) hlow (hp.drop_of_getElem hx (Option.some.inj hu))
  | case5 low high hlt =>
    obtain rfl : low = high := by omega
    exact ⟨low, rfl, hlow, hhigh⟩

theorem gallop?_eq (fromBack : Bool) :
    ∃ n, gallop? holds? fromBack xs = some n ∧ Splits p xs n := by
  cases xs with
  | nil => exact ⟨0, rfl, by simp [Splits]⟩
  | cons x ys =>
    have hx := h x List.mem_cons_self
    have hg : (x :: ys)[0]? = some x := rfl
    cases hv : p x with
    | false =>
      refine ⟨0, by simp [gallop?, hx, hv], by simp, hp.drop_of_getElem hg hv⟩
    | true =>
      obtain ⟨m, n, hmn, hle, hn, hm, hd⟩ :=
        leap?_eq h hp (Nat.le_refl 1) (by simp) (hp.take_of_getElem hg hv)
      obtain ⟨k, hk, hs⟩ := halve?_eq h hp fromBack hle hn hm hd
      exact ⟨k, by simp [gallop?, hx, hv, hmn, hk], hs⟩

end

end RecordWire.Sorting
