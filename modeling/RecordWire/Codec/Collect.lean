/-!
The results of operations one after the other: all of them, or the first error.
-/

namespace RecordWire

variable {ε α β : Type}

theorem map_eq_ok_iff {a : Except ε α} {f : α → β} {y : β} :
    a.map f = .ok y ↔ ∃ x, a = .ok x ∧ f x = y := by
  cases a <;> simp [Except.map]

theorem map_eq_error_iff {a : Except ε α} {f : α → β} {e : ε} :
    a.map f = .error e ↔ a = .error e := by
  cases a <;> simp [Except.map]

def collect : List (Except ε α) → Except ε (List α)
  | [] => .ok []
  | .error e :: _ => .error e
  | .ok x :: xs => (collect xs).map (x :: ·)

theorem collect_map_ok (ys : List α) : collect (ys.map .ok : List (Except ε α)) = .ok ys := by
  induction ys with
  | nil => rfl
  | cons y ys ih => simp [collect, ih, Except.map]

theorem collect_map_of_ok {f : β → Except ε α} {g : β → α} {xs : List β}
    (h : ∀ x ∈ xs, f x = .ok (g x)) : collect (xs.map f) = .ok (xs.map g) := by
  rw [← collect_map_ok, List.map_map, List.map_congr_left h]
  rfl

theorem eq_map_of_collect {xs : List (Except ε α)} {ys : List α} (h : collect xs = .ok ys) :
    xs = ys.map .ok := by
  induction xs generalizing ys with
  | nil => cases h; rfl
  | cons x xs ih =>
    cases x with
    | error e => cases h
    | ok x =>
      rw [collect, map_eq_ok_iff] at h
      obtain ⟨zs, hs, rfl⟩ := h
      simp [ih hs]

theorem mem_of_collect {f : β → Except ε α} {xs : List β} {ys : List α}
    (h : collect (xs.map f) = .ok ys) {y : α} (hy : y ∈ ys) : ∃ x ∈ xs, f x = .ok y := by
  have hm := eq_map_of_collect h
  have : Except.ok y ∈ xs.map f := hm ▸ List.mem_map_of_mem hy
  simpa using List.mem_map.1 this

theorem exists_ok_of_collect {f : β → Except ε α} {xs : List β} {ys : List α}
    (h : collect (xs.map f) = .ok ys) {x : β} (hx : x ∈ xs) : ∃ y, f x = .ok y := by
  have hm : f x ∈ ys.map Except.ok := eq_map_of_collect h ▸ List.mem_map_of_mem hx
  obtain ⟨y, -, hy⟩ := List.mem_map.1 hm
  exact ⟨y, hy.symm⟩

theorem exists_error_of_collect {f : β → Except ε α} {xs : List β} {e : ε}
    (h : collect (xs.map f) = .error e) : ∃ x ∈ xs, f x = .error e := by
  induction xs with
  | nil => cases h
  | cons x xs ih =>
    rw [List.map_cons] at h
    cases hx : f x with
    | error e' => rw [hx] at h; cases h; exact ⟨x, by simp, hx⟩
    | ok y =>
      rw [hx, collect, map_eq_error_iff] at h
      obtain ⟨x', hm, hx'⟩ := ih h
      exact ⟨x', by simp [hm], hx'⟩

end RecordWire
