import RecordWire.Value.Compare

/-!
The parts of a value, in order: the items of a list or tuple, the keys of a dictionary, the single
code points of a text, the numbers of a byte string. No part is deeper than its value, and the fields
of a record are less deep than the record.
-/

namespace RecordWire

def Atom.parts? : Atom → Option (List Atom)
  | text t => some (t.map fun c => text [c])
  | bytes bs => some (bs.map fun b => int b.toNat)
  | byteArray bs => some (bs.map fun b => int b.toNat)
  | _ => Option.none

namespace Value

def parts? : Value → Option (List Value)
  | atom a => a.parts?.map fun parts => parts.map atom
  | list items => some items
  | tuple items => some items
  | dict entries => some (entries.map (·.1))
  | record _ _ => Option.none

/-- The part that an index or a key selects: the outer result is missing if the value has no parts,
the inner one if it has none there. -/
def at? (i : Nat) : Value → Option (Option Value)
  | dict entries => some ((entries.find? fun e => (int i).equal e.1).map (·.2))
  | v => v.parts?.map fun parts => parts[i]?

mutual

/-- How deeply containers are nested in a value. -/
def depth : Value → Nat
  | atom _ => 0
  | list items => depths items + 1
  | tuple items => depths items + 1
  | dict entries => entryDepths entries + 1
  | record _ fields => depths fields + 1

def depths : List Value → Nat
  | [] => 0
  | v :: vs => max (depth v) (depths vs)

def entryDepths : List (Value × Value) → Nat
  | [] => 0
  | (k, v) :: es => max (max (depth k) (depth v)) (entryDepths es)

end

theorem depth_le_depths {v : Value} {vs : List Value} (h : v ∈ vs) : v.depth ≤ depths vs := by
  induction vs with
  | nil => simp at h
  | cons w ws ih =>
    rcases List.mem_cons.1 h with rfl | h
    · simp only [depths]; omega
    · have := ih h
      simp only [depths]; omega

theorem depth_le_entryDepths {e : Value × Value} {es : List (Value × Value)} (h : e ∈ es) :
    e.1.depth ≤ entryDepths es ∧ e.2.depth ≤ entryDepths es := by
  induction es with
  | nil => simp at h
  | cons f fs ih =>
    obtain ⟨k, v⟩ := f
    rcases List.mem_cons.1 h with rfl | h
    · simp only [entryDepths]; omega
    · have := ih h
      simp only [entryDepths]; omega

theorem depth_of_mem_parts {v p : Value} {ps : List Value} (hv : v.parts? = some ps)
    (hp : p ∈ ps) : p.depth ≤ v.depth - 1 := by
  cases v with
  | atom a =>
    obtain ⟨parts, _, rfl⟩ := Option.map_eq_some_iff.1 hv
    obtain ⟨b, _, rfl⟩ := List.mem_map.1 hp
    simp [depth]
  | list items =>
    cases hv
    simpa [depth] using depth_le_depths hp
  | tuple items =>
    cases hv
    simpa [depth] using depth_le_depths hp
  | dict entries =>
    cases hv
    obtain ⟨e, he, rfl⟩ := List.mem_map.1 hp
    simpa [depth] using (depth_le_entryDepths he).1
  | record head fields => simp [parts?] at hv

theorem depth_of_at {v p : Value} {i : Nat} (h : v.at? i = some (some p)) :
    p.depth ≤ v.depth - 1 := by
  cases v with
  | dict entries =>
    obtain ⟨e, he, rfl⟩ := Option.map_eq_some_iff.1 (Option.some.inj h)
    simpa [depth] using (depth_le_entryDepths (List.mem_of_find?_eq_some he)).2
  | atom a =>
    obtain ⟨parts, hp, hi⟩ := Option.map_eq_some_iff.1 h
    exact depth_of_mem_parts hp (List.mem_of_getElem? hi)
  | list items =>
    simp only [at?, parts?, Option.map_some, Option.some.injEq] at h
    simpa [depth] using depth_le_depths (List.mem_of_getElem? h)
  | tuple items =>
    simp only [at?, parts?, Option.map_some, Option.some.injEq] at h
    simpa [depth] using depth_le_depths (List.mem_of_getElem? h)
  | record head fields => simp [at?, parts?] at h

end Value

end RecordWire
