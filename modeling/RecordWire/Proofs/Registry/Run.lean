import Mathlib.Data.List.Perm.Basic
import Mathlib.Logic.Relation
import RecordWire.Proofs.Registry.Types
import RecordWire.Registry.Basic

/-!
Runs of a registry: batches are registered one after the other, and some of them fail. Whatever was
registered, the types are those that the structs of the registered schemas declare, each of them
refers to registered types only, and none refers to itself, directly or through others.
-/

namespace RecordWire.Registry

open BatchStruct

/-- A registered type has a field with another type as a part, both by the names they go by. -/
def Refers (r : Registry) (name other : Text) : Prop :=
  ∃ type, r.find? name = some type ∧
    ∃ f ∈ type.fields, ∃ part ∈ f.layout.records, part.typeName = other

/-- What a registry holds of its schemas at any time. -/
structure Sound (r : Registry) : Prop where
  names : (r.types.map (·.1)).Perm ((ofModules r.modules).map BatchStruct.name)
  nodup : (r.types.map (·.1)).Nodup
  declares : ∀ name type, r.find? name = some type →
    ∃ d ∈ ofModules r.modules, d.name = name ∧ d.Declares r.origin r.find? type
  acyclic : ∀ name, ¬ Relation.TransGen r.Refers name name

/-- What a batch makes of a registry: its structs have types, under names that were free, and its
schemas stand behind those that there were. -/
structure Adds (r : Registry) (modules : List SchemaModule) (r' : Registry)
    (created : List RecordType) : Prop where
  origin : r'.origin = r.origin
  types : r'.types = r.types ++ created.map fun type => (type.typeName, type)
  names : (created.map (·.typeName)).Perm ((ofModules modules).map BatchStruct.name)
  free : ∀ type ∈ created, r.find? type.typeName = none
  kept : ∀ name type, r.find? name = some type → r'.find? name = some type
  modules : r'.modules = r.modules ++ modules

/-- The types of a registry were built in an order, from the structs of its schemas. -/
structure Grounded (r : Registry) : Prop where
  types : TypeTable.Grounded r.origin (ofModules r.modules) r.types
  names : (r.types.map (·.1)).Perm ((ofModules r.modules).map BatchStruct.name)

section

variable {r r' : Registry} {modules : List SchemaModule} {created : List RecordType}

theorem build_cases (r : Registry) (modules : List SchemaModule) :
    (∃ s, r.build modules = ⟨[], some (.schema s)⟩) ∨
      ∃ order, Fresh r.isRegistered (ofModules modules) ∧
        Ordered (ofModules modules) r.isRegistered order ∧
        order.Perm ((ofModules modules).map BatchStruct.name) ∧
        r.build modules = buildAll r.origin r.types (ofModules modules) [] order := by
  rw [build]
  cases hb : ofBatch r.isRegistered modules with
  | error s => exact .inl ⟨s, rfl⟩
  | ok declared =>
    obtain ⟨rfl, hf⟩ := ofBatch_spec hb
    dsimp only
    cases ho : buildOrder r.isRegistered (ofModules modules) with
    | error s => exact .inl ⟨s, rfl⟩
    | ok order =>
      obtain ⟨hord, hperm⟩ := buildOrder_spec hf.nodup ho
      exact .inr ⟨order, hf, hord, hperm, rfl⟩

theorem stops_of_register {e : RegistryError} (h : r.register modules = .error e) :
    e.Stops (ofModules modules) := by
  rw [register_eq] at h
  cases he : (r.build modules).error? with
  | none => rw [he] at h; cases h
  | some e' =>
    rw [he] at h
    cases h
    rcases build_cases r modules with ⟨s, hb⟩ | ⟨order, -, hord, -, hb⟩
    · rw [hb] at he
      cases he
      exact .schema s
    · rw [hb] at he
      exact stops_of_buildAll he hord

/-- A batch that nothing stops grows the types of a registry by those of its structs, under names
that were free. -/
theorem Grounded.build (hr : r.Grounded) (h : (r.build modules).error? = none) :
    TypeTable.Grounded r.origin (ofModules (r.modules ++ modules))
        (r.types ++ (r.build modules).built) ∧
      ((r.build modules).built.map (·.1)).Perm ((ofModules modules).map BatchStruct.name) ∧
      Fresh r.isRegistered (ofModules modules) := by
  rcases build_cases r modules with ⟨s, hb⟩ | ⟨order, hf, hord, hperm, hb⟩
  · rw [hb] at h
    cases h
  rw [hb] at h ⊢
  have hold : ofModules r.modules ⊆ ofModules (r.modules ++ modules) := by
    rw [ofModules_append]
    exact List.subset_append_left _ _
  have hnew : ofModules modules ⊆ ofModules (r.modules ++ modules) := by
    rw [ofModules_append]
    exact List.subset_append_right _ _
  have hstart : TypeTable.Grounded r.origin (ofModules (r.modules ++ modules)) (r.types ++ []) := by
    simpa using hr.types.mono hold
  obtain ⟨hg, hnames⟩ := grounded_of_buildAll hstart hnew hf hord h
  refine ⟨hg, ?_, hf⟩
  rw [hnames]
  exact hperm

/-- One batch keeps the types of a registry built in order. -/
theorem Grounded.register (hr : r.Grounded) (h : r.register modules = .ok (r', created)) :
    r'.Grounded ∧ r.Adds modules r' created := by
  rw [register_eq] at h
  cases he : (r.build modules).error? with
  | some e => rw [he] at h; cases h
  | none =>
    rw [he] at h
    cases h
    obtain ⟨hg, hnames, hf⟩ := hr.build he
    have htype : ∀ p ∈ (r.build modules).built, p.2.typeName = p.1 :=
      fun p hp => hg.typeName_of_mem (List.mem_append_right _ hp)
    have htypeNames : (r.build modules).built.map (·.2.typeName) =
        (r.build modules).built.map (·.1) := List.map_congr_left htype
    refine ⟨⟨hg, ?_⟩, rfl, ?_, ?_, ?_, ?_, rfl⟩
    · rw [List.map_append, ofModules_append, List.map_append]
      exact hr.names.append hnames
    · have hkeys : ((r.build modules).built.map (·.2)).map (fun type => (type.typeName, type)) =
          (r.build modules).built := by
        rw [List.map_map]
        exact (List.map_congr_left fun p hp => by simp [htype p hp]).trans (List.map_id _)
      rw [hkeys]
    · simpa [Function.comp_def, htypeNames] using hnames
    · intro type ht
      obtain ⟨p, hp, rfl⟩ := List.mem_map.1 ht
      obtain ⟨d, hd, hname⟩ := List.mem_map.1 (hnames.subset (List.mem_map_of_mem hp))
      rw [htype p hp, ← hname]
      simpa [isRegistered] using hf.untaken d hd
    · exact fun name type ht => TypeTable.lookup_append_of_some ht

/-- The registry after a batch is what registering gives, or what it was. -/
theorem Grounded.after (hr : r.Grounded) (modules : List SchemaModule) :
    (r.after modules).Grounded := by
  cases hreg : r.register modules with
  | ok result =>
    rw [after_of_register_ok hreg]
    exact (hr.register hreg).1
  | error e =>
    rw [after_of_register_error hreg]
    exact hr

theorem grounded_run (origin : Nat) (batches : List (List SchemaModule)) :
    (batches.foldl after { origin }).Grounded := by
  have hrun : ∀ r : Registry, r.Grounded → (batches.foldl Registry.after r).Grounded := by
    induction batches with
    | nil => exact fun r hr => hr
    | cons modules batches ih => exact fun r hr => ih _ (hr.after modules)
  exact hrun _ ⟨.nil, List.Perm.nil⟩

theorem Grounded.idxOf_lt (hr : r.Grounded) {name other : Text} (h : r.Refers name other) :
    (r.types.map (·.1)).idxOf other < (r.types.map (·.1)).idxOf name := by
  obtain ⟨type, ht, f, hf, part, hp, rfl⟩ := h
  obtain ⟨earlier, later, d, htable, hn, -, -, hd⟩ := hr.types.exists_earlier ht
  obtain ⟨decl, -, hdecl⟩ := exists_of_forall₂ hd.fields hf
  obtain ⟨ref, -, href⟩ := hdecl.layout.exists_ref hp
  have hpart : r.types.lookup (ref.qualified d.module.package) = some part :=
    htable ▸ TypeTable.lookup_append_of_some href
  rw [hr.types.typeName_of_lookup hpart, htable, List.map_append, List.map_cons,
    List.idxOf_append_of_mem (TypeTable.isSome_lookup_iff.1 (by simp [href])),
    List.idxOf_append_of_notMem hn, List.idxOf_cons_self, Nat.add_zero]
  exact List.idxOf_lt_length_of_mem (TypeTable.isSome_lookup_iff.1 (by simp [href]))

theorem Grounded.sound (hr : r.Grounded) : r.Sound where
  names := hr.names
  nodup := hr.types.nodup
  declares _ _ ht := hr.types.exists_declares ht
  acyclic name h := by
    have hlt : ∀ {a b}, Relation.TransGen r.Refers a b →
        (r.types.map (·.1)).idxOf b < (r.types.map (·.1)).idxOf a := by
      intro a b hab
      induction hab with
      | single h => exact hr.idxOf_lt h
      | tail _ h ih => exact Nat.lt_trans (hr.idxOf_lt h) ih
    exact Nat.lt_irrefl _ (hlt h)

end

end RecordWire.Registry
