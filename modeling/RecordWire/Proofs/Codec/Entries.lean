import RecordWire.Codec.Write
import RecordWire.Proofs.Codec.Canonical
import RecordWire.Proofs.Sorting.Natural
import RecordWire.Proofs.Sorting.Perm
import RecordWire.Proofs.Value.Order

/-!
The entries of maps. Canonical keys of one kind have ranks in a linear order, by which they are
compared and sorted; so sorting them has a result, and what it has sorted it leaves as it is.
-/

namespace RecordWire

open Sorting

def Primitive.family : Primitive → Value.Family
  | char | string => .text
  | _ => .number

theorem Primitive.CanonicalKey.family {text : Text → Prop} {p : Primitive} {k : Value}
    (h : p.CanonicalKey text k) : p.family.Has k := by
  obtain ⟨h, hn⟩ := h
  cases p with
  | int | bool =>
    obtain ⟨_, rfl⟩ := h
    exact .int rfl
  | float | double =>
    obtain ⟨_, _, rfl⟩ := h
    exact .float hn
  | char =>
    obtain ⟨_, rfl⟩ := h
    exact ⟨_, rfl⟩
  | string =>
    obtain ⟨_, rfl, -⟩ := h
    exact ⟨_, rfl⟩

theorem Primitive.exists_rank (text : Text → Prop) (p : Primitive) :
    ∃ (β : Type) (_ : LinearOrder β) (rank : Value → β), Value.IsRank (p.CanonicalKey text) rank := by
  obtain ⟨β, _, rank, hr⟩ := p.family.exists_rank
  exact ⟨β, _, rank, hr.mono fun _ hk => hk.family⟩

section

variable {α : Type} {text : Text → Prop} {p : Primitive} {config : Config}

def Arranged (config : Config) (keys : List Value) : Prop :=
  config.sortMapKeys = true → keys.Pairwise fun k l => l.before? k = some false

theorem Value.IsRank.ranks {β : Type} [LinearOrder β] {family : Value → Prop} {rank : Value → β}
    (hr : Value.IsRank family rank) {entries : List (Value × α)} (h : ∀ e ∈ entries, family e.1) :
    Ranks (fun e f : Value × α => e.1.before? f.1) (fun e => rank e.1) entries := by
  intro e he f hf
  obtain ⟨b, hb, hi⟩ := hr.before? (h e he) (h f hf)
  change e.1.before? f.1 = some (decide (rank e.1 < rank f.1))
  rw [hb, Option.some.injEq, Bool.eq_iff_iff, hi, decide_eq_true_iff]

theorem Value.IsRank.ascending_iff {β : Type} [LinearOrder β] {family : Value → Prop}
    {rank : Value → β} (hr : Value.IsRank family rank) {entries : List (Value × α)}
    (h : ∀ e ∈ entries, family e.1) :
    Ascending (fun e : Value × α => rank e.1) entries ↔
      (entries.map (·.1)).Pairwise fun k l => l.before? k = some false := by
  rw [List.pairwise_map]
  refine List.Pairwise.iff_of_mem fun {e f} he hf => ?_
  obtain ⟨b, hb, hi⟩ := hr.before? (h f hf) (h e he)
  rw [hb, Option.some.injEq, ← Bool.not_eq_true, hi, not_lt]

theorem arrangeEntries_eq (config : Config) {entries : List (Value × α)}
    (h : ∀ e ∈ entries, p.CanonicalKey text e.1) :
    ∃ arranged, arrangeEntries config entries = some arranged ∧ arranged.Perm entries ∧
      Arranged config (arranged.map (·.1)) := by
  unfold arrangeEntries
  by_cases hs : config.sortMapKeys = true
  · obtain ⟨β, _, rank, hr⟩ := p.exists_rank text
    obtain ⟨arranged, ha, hasc, hf⟩ := sort?_eq (hr.ranks h)
    refine ⟨arranged, by rw [if_pos hs, ha], hf.perm, fun _ => ?_⟩
    exact (hr.ascending_iff fun e he => h e (hf.perm.mem_iff.1 he)).1 hasc
  · exact ⟨entries, by rw [if_neg hs], .refl _, fun hs' => absurd hs' hs⟩

theorem arrangeEntries_of_arranged {entries : List (Value × α)}
    (h : ∀ e ∈ entries, p.CanonicalKey text e.1) (ha : Arranged config (entries.map (·.1))) :
    arrangeEntries config entries = some entries := by
  unfold arrangeEntries
  by_cases hs : config.sortMapKeys = true
  · obtain ⟨β, _, rank, hr⟩ := p.exists_rank text
    rw [if_pos hs, sort?_of_ascending (hr.ranks h) ((hr.ascending_iff h).2 (ha hs))]
  · rw [if_neg hs]

theorem arrangeEntries_map {ε γ : Type} [TextEncoding ε] {config : ConfigOf ε}
    (entries : List (Value × α)) (g : Value × α → γ) :
    arrangeEntries config (entries.map fun e => (e.1, g e)) =
      (arrangeEntries config entries).map (List.map fun e => (e.1, g e)) := by
  unfold arrangeEntries
  split
  · exact sort?_map (fun e : Value × α => (e.1, g e)) _ entries
  · rw [Option.map_some]

theorem perm_of_arrangeEntries {ε : Type} [TextEncoding ε] {config : ConfigOf ε}
    {entries arranged : List (Value × α)}
    (h : arrangeEntries config entries = some arranged) : arranged.Perm entries := by
  unfold arrangeEntries at h
  split at h
  · exact perm_of_sort? h
  · cases h
    exact .refl _

end

def Value.fresh : Value → Value
  | .atom (.float x _) => .float x
  | v => v

namespace Value

theorem fresh_cases (v : Value) : v.fresh = v ∨ ∃ x object, v = .atom (.float x object) := by
  unfold fresh
  split
  · exact Or.inr ⟨_, _, rfl⟩
  · exact Or.inl rfl

theorem equal_fresh (v w : Value) : v.fresh.equal w.fresh = v.equal w := by
  rcases v.fresh_cases with hv | ⟨x, i, rfl⟩ <;> rcases w.fresh_cases with hw | ⟨y, j, rfl⟩
  · rw [hv, hw]
  · rw [hv]
    cases v with
    | atom a => cases a <;> simp [fresh, equal, Atom.equal]
    | _ => simp [fresh, equal]
  · rw [hw]
    cases w with
    | atom b => cases b <;> simp [fresh, equal, Atom.equal]
    | _ => simp [fresh, equal]
  · simp [fresh, equal, Atom.equal]

theorem before?_fresh (v w : Value) : v.fresh.before? w.fresh = v.before? w := by
  rcases v.fresh_cases with hv | ⟨x, i, rfl⟩ <;> rcases w.fresh_cases with hw | ⟨y, j, rfl⟩
  · rw [hv, hw]
  · rw [hv]
    cases v with
    | atom a => cases a <;> simp [fresh, before?, Atom.before?]
    | _ => simp [fresh, before?]
  · rw [hw]
    cases w with
    | atom b => cases b <;> simp [fresh, before?, Atom.before?]
    | _ => simp [fresh, before?]
  · simp [fresh, before?, Atom.before?]

theorem same_fresh_atom (a : Atom) (w : Value) : (atom a).fresh.same w = false := by
  cases w with
  | atom b => cases a <;> cases b <;> rfl
  | _ => cases a <;> rfl

end Value

section

variable {text : Text → Prop} {p : Primitive} {config : Config} {keys keys' : List Value}

theorem Primitive.CanonicalKey.fresh {k : Value} (h : p.CanonicalKey text k) :
    p.CanonicalKey text k.fresh := by
  rcases k.fresh_cases with hk | ⟨x, i, rfl⟩
  · rwa [hk]
  · obtain ⟨hc, hn⟩ := h
    refine ⟨?_, hn⟩
    cases p with
    | float | double => exact ⟨x, 0, rfl⟩
    | int | bool | char | string => simp [Canonical] at hc

theorem Primitive.Canonical.exists_atom {v : Value} (h : p.Canonical text v) :
    ∃ a, v = .atom a := by
  cases p with
  | int | bool | char =>
    obtain ⟨_, rfl⟩ := h
    exact ⟨_, rfl⟩
  | float | double =>
    obtain ⟨_, _, rfl⟩ := h
    exact ⟨_, rfl⟩
  | string =>
    obtain ⟨_, rfl, -⟩ := h
    exact ⟨_, rfl⟩

theorem Primitive.CanonicalKey.alike_fresh {k l : Value} (h : p.CanonicalKey text k) :
    k.fresh.alike l.fresh = k.equal l := by
  obtain ⟨a, rfl⟩ := h.1.exists_atom
  rw [Value.alike, Value.same_fresh_atom, Bool.false_or, Value.equal_fresh]

theorem arranged_fresh : Arranged config (keys.map Value.fresh) ↔ Arranged config keys := by
  simp only [Arranged, List.pairwise_map, Value.before?_fresh]

theorem Value.IsRank.nodup {β : Type} [LinearOrder β] {family : Value → Prop} {rank : Value → β}
    (hr : Value.IsRank family rank) (h : ∀ k ∈ keys, family k) (hd : Value.Distinct keys) :
    (keys.map rank).Nodup := by
  rw [List.Nodup, List.pairwise_map]
  refine hd.imp_of_mem fun {k l} hk hl hkl he => ?_
  have hequal := (hr.equal (h l hl) (h k hk)).2 he.symm
  rw [Value.alike_of_equal hequal] at hkl
  cases hkl

theorem distinct_fresh (h : ∀ k ∈ keys, p.CanonicalKey text k) (hd : Value.Distinct keys)
    (hp : keys'.Perm keys) : Value.Distinct (keys'.map Value.fresh) := by
  obtain ⟨β, _, rank, hr⟩ := p.exists_rank text
  have h' : ∀ k ∈ keys', p.CanonicalKey text k := fun k hk => h k (hp.mem_iff.1 hk)
  have hnodup' := ((hp.map rank).nodup_iff).2 (hr.nodup h hd)
  rw [List.Nodup, List.pairwise_map] at hnodup'
  rw [Value.Distinct, List.pairwise_map]
  refine hnodup'.imp_of_mem fun {k l} hk hl hne => ?_
  rw [(h' l hl).alike_fresh]
  exact Bool.eq_false_iff.2 fun he => hne ((hr.equal (h' l hl) (h' k hk)).1 he).symm

end

namespace Value

variable {es : List (Value × Value)} {k v : Value}

theorem assign_of_new (h : ∀ e ∈ es, k.alike e.1 = false) : assign k v es = es ++ [(k, v)] := by
  induction es with
  | nil => rfl
  | cons e es ih =>
    obtain ⟨he, hes⟩ := List.forall_mem_cons.1 h
    simp [assign, he, ih hes]

theorem keys_assign (k v : Value) (es : List (Value × Value)) :
    (assign k v es).map (·.1) = es.map (·.1) ∨
      (∀ e ∈ es, k.alike e.1 = false) ∧ (assign k v es).map (·.1) = es.map (·.1) ++ [k] := by
  induction es with
  | nil => simp [assign]
  | cons e es ih =>
    by_cases he : k.alike e.1 = true
    · exact Or.inl (by simp [assign, he])
    · rw [Bool.not_eq_true] at he
      refine ih.imp (fun h => by simp [assign, he, h]) fun ⟨hn, h⟩ => ⟨?_, by simp [assign, he, h]⟩
      exact List.forall_mem_cons.2 ⟨he, hn⟩

theorem exists_key_mem_assign (k v : Value) {e : Value × Value} (he : e ∈ es) :
    ∃ f ∈ assign k v es, f.1 = e.1 := by
  have hmem : e.1 ∈ (assign k v es).map (·.1) := by
    have he' := List.mem_map_of_mem (f := (·.1)) he
    rcases keys_assign k v es with hkeys | ⟨-, hkeys⟩
    · rwa [hkeys]
    · rw [hkeys]
      exact List.mem_append_left _ he'
  exact List.mem_map.1 hmem

theorem distinct_assign (h : Distinct (es.map (·.1))) : Distinct ((assign k v es).map (·.1)) := by
  rcases keys_assign k v es with he | ⟨hn, he⟩
  · rwa [he]
  · rw [he]
    refine List.pairwise_append.2 ⟨h, List.pairwise_singleton _ _, fun l hl m hm => ?_⟩
    obtain ⟨e, hmem, rfl⟩ := List.mem_map.1 hl
    rw [List.mem_singleton.1 hm]
    exact hn e hmem

theorem distinct_foldl_assign (ps : List (Value × Value)) (h : Distinct (es.map (·.1))) :
    Distinct ((ps.foldl (fun es p => assign p.1 p.2 es) es).map (·.1)) := by
  induction ps generalizing es with
  | nil => exact h
  | cons p ps ih => exact ih (distinct_assign h)

theorem distinct_ofPairs (ps : List (Value × Value)) : Distinct ((ofPairs ps).map (·.1)) :=
  distinct_foldl_assign ps .nil

theorem foldl_assign_of_distinct {ps : List (Value × Value)}
    (h : Distinct ((es ++ ps).map (·.1))) :
    ps.foldl (fun es p => assign p.1 p.2 es) es = es ++ ps := by
  induction ps generalizing es with
  | nil => simp
  | cons p ps ih =>
    have hp : ∀ e ∈ es, p.1.alike e.1 = false := by
      rw [Distinct, List.pairwise_map, List.pairwise_append] at h
      exact fun e he => h.2.2 e he p List.mem_cons_self
    rw [List.foldl_cons, assign_of_new hp, ih (by simpa using h), List.append_assoc,
      List.singleton_append]

theorem ofPairs_of_distinct {ps : List (Value × Value)} (h : Distinct (ps.map (·.1))) :
    ofPairs ps = ps := foldl_assign_of_distinct h

end Value

end RecordWire
