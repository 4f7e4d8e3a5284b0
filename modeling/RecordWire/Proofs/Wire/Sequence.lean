import RecordWire.Proofs.Wire.Reading

/-!
Byte strings that follow each other, each related to an item: what becomes of them when the items
are put into another order, related to something else, or put as entries into a dictionary.
-/

namespace RecordWire.Reader

variable {α β : Type} {R : Bytes → α → Prop} {bs : Bytes} {xs : List α}

namespace SpellAll

theorem exists_of_mem (h : SpellAll R bs xs) {x : α} (hx : x ∈ xs) : ∃ cs, R cs x := by
  induction h with
  | nil => cases hx
  | cons head tail ih =>
    rcases List.mem_cons.1 hx with rfl | hx
    · exact ⟨_, head⟩
    · exact ih hx

theorem mono {S : Bytes → α → Prop} (hRS : ∀ cs, ∀ x ∈ xs, R cs x → S cs x)
    (h : SpellAll R bs xs) : SpellAll S bs xs := by
  induction h with
  | nil => exact .nil
  | cons head tail ih =>
    exact .cons (hRS _ _ List.mem_cons_self head)
      (ih fun cs x hx => hRS cs x (List.mem_cons_of_mem _ hx))

theorem map {f : α → β} {S : Bytes → β → Prop} (h : SpellAll (fun cs x => S cs (f x)) bs xs) :
    SpellAll S bs (xs.map f) := by
  induction h with
  | nil => exact .nil
  | cons head tail ih => exact .cons head ih

theorem of_map {f : α → β} {S : Bytes → β → Prop} (h : SpellAll S bs (xs.map f)) :
    SpellAll (fun cs x => S cs (f x)) bs xs := by
  induction xs generalizing bs with
  | nil =>
    cases h
    exact .nil
  | cons x xs ih =>
    cases h with
    | cons head tail => exact .cons head (ih tail)

theorem exists_partners {S : Bytes → α → β → Prop}
    (hRS : ∀ cs, ∀ x ∈ xs, R cs x → ∃ y, S cs x y) (h : SpellAll R bs xs) :
    ∃ ps : List (α × β), ps.map (·.1) = xs ∧ SpellAll (fun cs p => S cs p.1 p.2) bs ps := by
  induction h with
  | nil => exact ⟨[], rfl, .nil⟩
  | @cons cs ds x xs head tail ih =>
    obtain ⟨y, hy⟩ := hRS cs x List.mem_cons_self head
    obtain ⟨ps, rfl, hps⟩ := ih fun cs x hx => hRS cs x (List.mem_cons_of_mem _ hx)
    exact ⟨(x, y) :: ps, rfl, .cons (x := (x, y)) hy hps⟩

/-- If each item has a byte string that is not longer, and in some cases is the same, then so have
the items together. -/
theorem exists_not_longer {S : Bytes → α → Prop} {E : α → Prop}
    (hRS : ∀ cs, ∀ x ∈ xs, R cs x → ∃ ds, S ds x ∧ ds.length ≤ cs.length ∧ (E x → ds = cs))
    (h : SpellAll R bs xs) : ∃ out, SpellAll S out xs ∧ out.length ≤ bs.length ∧
      ((∀ x ∈ xs, E x) → out = bs) := by
  induction h with
  | nil => exact ⟨[], .nil, Nat.le_refl _, fun _ => rfl⟩
  | @cons cs cs' x xs head tail ih =>
    obtain ⟨ds, hS, hle, he⟩ := hRS cs x List.mem_cons_self head
    obtain ⟨ds', hS', hle', he'⟩ := ih fun cs x hx => hRS cs x (List.mem_cons_of_mem _ hx)
    refine ⟨ds ++ ds', .cons hS hS', ?_, fun hall => ?_⟩
    · simp only [List.length_append]
      omega
    · obtain ⟨hx, hxs⟩ := List.forall_mem_cons.1 hall
      rw [he hx, he' hxs]

theorem exists_as_long {S : Bytes → α → Prop}
    (hRS : ∀ cs, ∀ x ∈ xs, R cs x → ∃ ds, S ds x ∧ ds.length = cs.length)
    (h : SpellAll R bs xs) : ∃ out, SpellAll S out xs ∧ out.length = bs.length := by
  induction h with
  | nil => exact ⟨[], .nil, rfl⟩
  | @cons cs cs' x xs head tail ih =>
    obtain ⟨ds, hS, hl⟩ := hRS cs x List.mem_cons_self head
    obtain ⟨ds', hS', hl'⟩ := ih fun cs x hx => hRS cs x (List.mem_cons_of_mem _ hx)
    exact ⟨ds ++ ds', .cons hS hS', by simp [hl, hl']⟩

theorem exists_perm {ys : List α} (hp : xs.Perm ys) (h : SpellAll R bs xs) :
    ∃ cs, SpellAll R cs ys ∧ cs.length = bs.length := by
  induction hp generalizing bs with
  | nil => exact ⟨bs, h, rfl⟩
  | cons x hp ih =>
    cases h with
    | cons head tail =>
      obtain ⟨cs, hcs, hl⟩ := ih tail
      exact ⟨_, .cons head hcs, by simp [hl]⟩
  | swap x y xs =>
    cases h with
    | cons head tail =>
      cases tail with
      | cons head' tail =>
        refine ⟨_, .cons head' (.cons head tail), ?_⟩
        simp only [List.length_append]
        omega
  | trans hp hp' ih ih' =>
    obtain ⟨cs, hcs, hl⟩ := ih h
    obtain ⟨ds, hds, hl'⟩ := ih' hcs
    exact ⟨ds, hds, hl'.trans hl⟩

end SpellAll

variable {K V : Bytes → Value → Prop} {es ps : List (Value × Value)} {cs : Bytes}

theorem exists_spellAll_assign {p : Value × Value} (hp : SpellPair K V cs p)
    (h : SpellAll (SpellPair K V) bs es) :
    ∃ out, SpellAll (SpellPair K V) out (Value.assign p.1 p.2 es) ∧
      out.length ≤ bs.length + cs.length ∧
      (Value.assign p.1 p.2 es).length ≤ es.length + 1 := by
  induction h with
  | nil =>
    refine ⟨cs ++ [], .cons hp .nil, ?_, Nat.le_refl _⟩
    simp
  | @cons ds ds' e es head tail ih =>
    unfold Value.assign
    split
    · obtain ⟨ks, vs, rfl, hk, hv⟩ := head
      obtain ⟨ks', vs', rfl, -, hv'⟩ := hp
      have he : SpellPair K V (ks ++ vs') (e.1, p.2) := ⟨ks, vs', rfl, hk, hv'⟩
      refine ⟨_, .cons he tail, ?_, by simp⟩
      simp only [List.length_append]
      omega
    · obtain ⟨out, hout, hle, hn⟩ := ih
      refine ⟨_, .cons head hout, ?_, by simpa using hn⟩
      simp only [List.length_append]
      omega

theorem exists_spellAll_foldl_assign (h : SpellAll (SpellPair K V) bs es)
    (hps : SpellAll (SpellPair K V) cs ps) :
    ∃ out, SpellAll (SpellPair K V) out (ps.foldl (fun es p => Value.assign p.1 p.2 es) es) ∧
      out.length ≤ bs.length + cs.length ∧
      (ps.foldl (fun es p => Value.assign p.1 p.2 es) es).length ≤ es.length + ps.length := by
  induction hps generalizing bs es with
  | nil => exact ⟨bs, h, Nat.le_refl _, Nat.le_refl _⟩
  | cons head tail ih =>
    obtain ⟨out, hout, hle, hn⟩ := exists_spellAll_assign head h
    obtain ⟨out', hout', hle', hn'⟩ := ih hout
    refine ⟨out', hout', ?_, ?_⟩
    · simp only [List.length_append]
      omega
    · simp only [List.foldl_cons, List.length_cons]
      omega

theorem exists_spellAll_ofPairs (h : SpellAll (SpellPair K V) bs ps) :
    ∃ out, SpellAll (SpellPair K V) out (Value.ofPairs ps) ∧ out.length ≤ bs.length ∧
      (Value.ofPairs ps).length ≤ ps.length := by
  obtain ⟨out, hout, hle, hn⟩ := exists_spellAll_foldl_assign .nil h
  exact ⟨out, hout, by simpa using hle, by simpa [Value.ofPairs] using hn⟩

end RecordWire.Reader
