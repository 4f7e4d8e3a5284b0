import Mathlib.Data.List.Perm.Subperm
import Mathlib.Data.List.Sort
import RecordWire.Proofs.Registry.Acyclic
import RecordWire.Proofs.Registry.Run
import RecordWire.Proofs.Value.Order

/-!
Batches in another order, and in parts. What a batch adds to a registry can be said without the order
in which it is built: a table with a type for each struct, which is what the struct is built to from
all types that there are then. Such a table stays one when the schemas change places, and the tables of
batches registered one after the other make one for all their schemas together. Registering finds a
table if there is one, whatever order it builds the structs in.
-/

namespace RecordWire

theorem Text.sorted_eq_of_perm {ts us : List Text} (h : ts.Perm us) : sorted ts = sorted us := by
  have hle : ∀ s t : Text, (!t.before s) = decide (s ≤ t) := by
    intro s t
    rw [Bool.eq_iff_iff, Bool.not_eq_true', ← Bool.not_eq_true, before_iff, decide_eq_true_iff,
      not_lt]
  have hsorted : ∀ ts : List Text, sorted ts = ts.mergeSort (fun s t => decide (s ≤ t)) := by
    intro ts
    simp only [sorted, hle]
  rw [hsorted, hsorted]
  refine List.Perm.eq_of_pairwise' (r := (· ≤ ·)) (List.pairwise_mergeSort' _ _)
    (List.pairwise_mergeSort' _ _) ?_
  exact (List.mergeSort_perm _ _).trans (h.trans (List.mergeSort_perm _ _).symm)

section

variable {types types' : Text → Option RecordType} {package : Text}

theorem TypeExpr.layout_congr {e : TypeExpr}
    (h : ∀ ref ∈ e.refs, types (ref.qualified package) = types' (ref.qualified package)) :
    e.layout types package = e.layout types' package := by
  induction e with
  | primitive name => rfl
  | list element ih => rw [layout, layout, ih h]
  | map key value ihk ihv =>
    obtain ⟨hk, hv⟩ := List.forall_mem_append.1 h
    simp only [layout, ihk hk, ihv hv]
  | struct name package? => rw [layout, layout, h _ (List.mem_singleton_self _)]

namespace BatchStruct

variable {d : BatchStruct} {f : FieldDecl} {origin : Nat}

theorem buildField_congr (h : ∀ ref ∈ f.type.refs,
    types (ref.qualified d.module.package) = types' (ref.qualified d.module.package)) :
    d.buildField types f = d.buildField types' f := by
  rw [buildField, buildField, TypeExpr.layout_congr h]

theorem build_congr (h : ∀ target ∈ d.targets, types target = types' target) :
    d.build origin types = d.build origin types' := by
  have hfields : d.struct.fields.map (d.buildField types) =
      d.struct.fields.map (d.buildField types') :=
    List.map_congr_left fun f hf => buildField_congr fun ref hr => h _ (mem_targets hf hr)
  rw [build, build, hfields]

/-- A struct that finds all that it refers to is built to the same type if there are more types. -/
theorem build_mono (hfound : ∀ target ∈ d.targets, (types target).isSome = true)
    (hle : ∀ name type, types name = some type → types' name = some type) :
    d.build origin types' = d.build origin types := by
  refine build_congr fun target ht => ?_
  obtain ⟨type, htype⟩ := Option.isSome_iff_exists.1 (hfound target ht)
  rw [htype, hle _ _ htype]

variable {known known' : Text → Bool} {declared declared' more : List BatchStruct}
  {order order' : List Text}

theorem addAll_of_fresh {taken : Text → Bool} {ds : List BatchStruct}
    (h : Fresh taken (declared ++ ds)) : addAll taken declared ds = .ok (declared ++ ds) := by
  induction ds generalizing declared with
  | nil => simp [addAll]
  | cons d ds ih =>
    have htaken : taken d.name = false := h.untaken d (by simp)
    have hnew : (declared.any fun e => e.name == d.name) = false := by
      have hnodup := h.nodup
      rw [List.map_append, List.nodup_append] at hnodup
      simp only [List.any_eq_false, beq_iff_eq]
      exact fun e he heq => hnodup.2.2 _ (List.mem_map_of_mem he) d.name (by simp) heq
    rw [addAll, htaken, hnew, if_neg (by decide), ih (by simpa using h), List.append_assoc]
    rfl

theorem Fresh.perm (h : Fresh known declared) (hp : declared.Perm declared') :
    Fresh known declared' where
  nodup := (hp.map name).nodup_iff.1 h.nodup
  untaken d hd := h.untaken d (hp.mem_iff.2 hd)

/-- The structs of one batch and of a later one, which knows the names of the first, are new together. -/
theorem Fresh.append (h : Fresh known declared) (h' : Fresh known' more)
    (hold : ∀ name, known name = true → known' name = true)
    (hfirst : ∀ d ∈ declared, known' d.name = true) : Fresh known (declared ++ more) := by
  constructor
  · rw [List.map_append, List.nodup_append]
    refine ⟨h.nodup, h'.nodup, ?_⟩
    rintro _ hn _ hm rfl
    obtain ⟨d, hd, hname⟩ := List.mem_map.1 hn
    obtain ⟨e, he, rfl⟩ := List.mem_map.1 hm
    have hnew := h'.untaken e he
    rw [← hname, hfirst d hd] at hnew
    cases hnew
  · intro d hd
    rcases List.mem_append.1 hd with hd | hd
    · exact h.untaken d hd
    · rw [← Bool.not_eq_true]
      intro hn
      have hnew := h'.untaken d hd
      rw [hold _ hn] at hnew
      cases hnew

theorem Fresh.find?_mono (hf : Fresh known declared) (hsub : more ⊆ declared) {name : Text}
    {d : BatchStruct} (h : find? more name = some d) : find? declared name = some d := by
  obtain rfl := name_of_find? h
  exact hf.find?_eq (hsub (List.mem_of_find?_eq_some h))

theorem Ordered.mono (h : Ordered declared known order)
    (hle : ∀ name d, find? declared name = some d → find? declared' name = some d) :
    Ordered declared' known order := by
  induction h with
  | nil => exact .nil
  | snoc _ hd hn ht ih => exact ih.snoc (hle _ _ hd) hn ht

theorem Ordered.append (h : Ordered declared known order) (h' : Ordered declared known' order')
    (hnew : ∀ name ∈ order', name ∉ order)
    (hknown : ∀ name, known' name = true → name ∈ order ∨ known name = true) :
    Ordered declared known (order ++ order') := by
  induction h' with
  | nil => simpa using h
  | @snoc order' name d _ hd hn ht ih =>
    rw [← List.append_assoc]
    refine (ih fun n hm => hnew n (List.mem_append_left _ hm)).snoc hd ?_ fun target htarget => ?_
    · rw [List.mem_append, not_or]
      exact ⟨hnew name (by simp), hn⟩
    · rw [List.mem_append]
      rcases ht target htarget with hm | hm
      · exact .inl (.inr hm)
      · exact (hknown target hm).imp_left .inl

theorem Ordered.known_eq_false (h : Ordered declared known order) (hf : Fresh known declared)
    {name : Text} (hn : name ∈ order) : known name = false := by
  obtain ⟨d, hd, rfl⟩ := h.exists_declared hn
  exact hf.untaken d hd

end BatchStruct

end

namespace TypeTable

variable {known table table' : TypeTable} {name : Text} {type : RecordType}

theorem lookup_of_mem (hn : (table.map (·.1)).Nodup) (h : (name, type) ∈ table) :
    table.lookup name = some type := by
  obtain ⟨before, behind, rfl⟩ := List.append_of_mem h
  have hbefore : name ∉ before.map (·.1) := by
    rw [List.map_append, List.nodup_append] at hn
    exact fun hm => hn.2.2 name hm name (by simp) rfl
  rw [List.lookup_append, lookup_eq_none_iff.2 hbefore, Option.none_or, List.lookup_cons_self]

theorem lookup_of_perm (hn : (table.map (·.1)).Nodup) (hp : table.Perm table') (name : Text) :
    table.lookup name = table'.lookup name := by
  have hn' : (table'.map (·.1)).Nodup := (hp.map _).nodup_iff.1 hn
  cases h : table.lookup name with
  | none =>
    rw [lookup_eq_none_iff, (hp.map (·.1)).mem_iff, ← lookup_eq_none_iff] at h
    exact h.symm
  | some type =>
    obtain ⟨before, behind, rfl, -⟩ := List.lookup_eq_some_iff.1 h
    exact (lookup_of_mem hn' (hp.mem_iff.1 (by simp))).symm

theorem lookup_of_or {built : TypeTable} (hn : (table.map (·.1)).Nodup) (hsub : built ⊆ table)
    (hnew : ∀ name ∈ built.map (·.1), known.lookup name = none)
    (h : (built.lookup name).or (known.lookup name) = some type) :
    (known ++ table).lookup name = some type := by
  cases hb : built.lookup name with
  | none =>
    rw [hb, Option.none_or] at h
    exact lookup_append_of_some h
  | some type' =>
    rw [hb, Option.some_or] at h
    cases h
    obtain ⟨before, behind, rfl, -⟩ := List.lookup_eq_some_iff.1 hb
    rw [List.lookup_append, hnew name (by simp), Option.none_or]
    exact lookup_of_mem hn (hsub (by simp))

end TypeTable

section

open BatchStruct

variable {origin : Nat} {known built : TypeTable} {declared : List BatchStruct} {names : List Text}

/-- The types of a table are what structs of the batch are built to, from known types and the table. -/
def TypeTable.BuiltFrom (origin : Nat) (known table : TypeTable) (declared : List BatchStruct)
    (part : TypeTable) : Prop :=
  ∀ p ∈ part, ∃ d ∈ declared, d.name = p.1 ∧
    d.build origin ((known ++ table).lookup ·) = .ok p.2

theorem builtFrom_of_buildAll (hf : Fresh (fun n => (known.lookup n).isSome) declared)
    (ho : Ordered declared (fun n => (known.lookup n).isSome) (built.map (·.1) ++ names))
    (h : (buildAll origin known declared built names).error? = none) :
    ∃ new, (buildAll origin known declared built names).built = built ++ new ∧
      new.map (·.1) = names ∧ TypeTable.BuiltFrom origin known (built ++ new) declared new := by
  induction names generalizing built with
  | nil => exact ⟨[], by simp [buildAll], rfl, by simp [TypeTable.BuiltFrom]⟩
  | cons name names ih =>
    obtain ⟨d, hd, -, ht⟩ := ho.next
    simp only [buildAll, hd] at h ⊢
    cases hb : d.build origin fun n => (built.lookup n).or (known.lookup n) with
    | error e => rw [hb] at h; cases h
    | ok type =>
      rw [hb] at h
      obtain ⟨new, hnew, hkeys, hbuilt⟩ := ih (by simpa using ho) h
      rw [List.append_assoc, List.singleton_append] at hnew hbuilt
      have hnodup : ((built ++ (name, type) :: new).map (·.1)).Nodup := by
        simpa [hkeys] using ho.nodup
      refine ⟨(name, type) :: new, hnew, by simp [hkeys], List.forall_mem_cons.2 ⟨?_, hbuilt⟩⟩
      refine ⟨d, List.mem_of_find?_eq_some hd, name_of_find? hd, ?_⟩
      rw [← hb]
      refine build_mono ht fun n t hn => TypeTable.lookup_of_or hnodup (by simp) ?_ hn
      intro n hm
      simpa using ho.known_eq_false hf (List.mem_append_left _ hm)

theorem buildAll_subset {table : TypeTable}
    (hf : Fresh (fun n => (known.lookup n).isSome) declared)
    (ho : Ordered declared (fun n => (known.lookup n).isSome) (built.map (·.1) ++ names))
    (hnodup : (table.map (·.1)).Nodup) (hsub : built ⊆ table)
    (hnames : ∀ name ∈ names, name ∈ table.map (·.1))
    (htable : TypeTable.BuiltFrom origin known table declared table) :
    (buildAll origin known declared built names).error? = none ∧
      (buildAll origin known declared built names).built ⊆ table := by
  induction names generalizing built with
  | nil => exact ⟨rfl, hsub⟩
  | cons name names ih =>
    obtain ⟨d, hd, -, ht⟩ := ho.next
    obtain ⟨hname, hrest⟩ := List.forall_mem_cons.1 hnames
    obtain ⟨⟨_, type⟩, hp, rfl⟩ := List.mem_map.1 hname
    obtain ⟨d', hd', hname', hbuild⟩ := htable _ hp
    obtain rfl : d' = d := by
      have hfind := hf.find?_eq hd'
      rw [hname', hd] at hfind
      exact (Option.some.inj hfind).symm
    have hb : (d'.build origin fun n => (built.lookup n).or (known.lookup n)) = .ok type := by
      rw [← hbuild]
      refine (build_mono ht fun n t hn => TypeTable.lookup_of_or hnodup hsub ?_ hn).symm
      intro n hm
      simpa using ho.known_eq_false hf (List.mem_append_left _ hm)
    simp only [buildAll, hd, hb]
    refine ih (by simpa using ho) ?_ hrest
    exact List.append_subset.2 ⟨hsub, List.cons_subset.2 ⟨hp, List.nil_subset _⟩⟩

end

namespace Registry

open BatchStruct

/-- The registry with more schemas, and the types of a table behind its own. -/
def grown (r : Registry) (modules : List SchemaModule) (table : TypeTable) : Registry :=
  { r with types := r.types ++ table, modules := r.modules ++ modules }

theorem grown_grown (r : Registry) (modules more : List SchemaModule) (table table' : TypeTable) :
    (r.grown modules table).grown more table' = r.grown (modules ++ more) (table ++ table') := by
  simp only [grown, List.append_assoc]

theorem isRegistered_grown (r : Registry) (modules : List SchemaModule) (table : TypeTable)
    (name : Text) : (r.grown modules table).isRegistered name = true ↔
      r.isRegistered name = true ∨ name ∈ table.map (·.1) := by
  rw [← TypeTable.isSome_lookup_iff, ← Bool.or_eq_true]
  simp only [isRegistered, find?, grown, List.lookup_append, Option.isSome_or]

/-- A table that a batch can add to a registry: it has a type for each struct, in an order in which
what a struct refers to stands before it, and the type is what the struct is built to. -/
structure Accepts (r : Registry) (modules : List SchemaModule) (table : TypeTable) : Prop where
  fresh : Fresh r.isRegistered (ofModules modules)
  names : (table.map (·.1)).Perm ((ofModules modules).map BatchStruct.name)
  ordered : Ordered (ofModules modules) r.isRegistered (table.map (·.1))
  built : TypeTable.BuiltFrom r.origin r.types table (ofModules modules) table

/-- The registries have the same types under the same names, from the same schemas. -/
structure Alike (r r' : Registry) : Prop where
  names : r.names = r'.names
  find : ∀ name, r.find? name = r'.find? name
  modules : r.modules.Perm r'.modules

section

variable {r r' : Registry} {modules modules' more : List SchemaModule} {table table' : TypeTable}
  {created : List RecordType}

theorem Accepts.nodup (h : r.Accepts modules table) : (table.map (·.1)).Nodup :=
  h.names.nodup_iff.2 h.fresh.nodup

theorem accepts_of_register (h : r.register modules = .ok (r', created)) :
    ∃ table, r.Accepts modules table ∧ r' = r.grown modules table := by
  rw [register_eq] at h
  cases he : (r.build modules).error? with
  | some e => rw [he] at h; cases h
  | none =>
    rw [he] at h
    cases h
    rcases build_cases r modules with ⟨s, hb⟩ | ⟨order, hf, hord, hperm, hb⟩
    · rw [hb] at he
      cases he
    rw [hb] at he ⊢
    have hstart : Ordered (ofModules modules) r.isRegistered
        (([] : TypeTable).map (·.1) ++ order) := hord
    obtain ⟨new, hnew, rfl, hbuilt⟩ := builtFrom_of_buildAll hf hstart he
    rw [hnew]
    exact ⟨new, ⟨hf, hperm, hord, hbuilt⟩, rfl⟩

theorem Accepts.exists_register (h : r.Accepts modules table) :
    ∃ table', table'.Perm table ∧
      r.register modules = .ok (r.grown modules table', table'.map (·.2)) := by
  have hbatch : ofBatch r.isRegistered modules = .ok (ofModules modules) :=
    addAll_of_fresh h.fresh
  obtain ⟨order, ho⟩ := (h.ordered.orderable h.fresh h.names).exists_buildOrder
  obtain ⟨hord, hperm⟩ := buildOrder_spec h.fresh.nodup ho
  have hbuild : r.build modules = buildAll r.origin r.types (ofModules modules) [] order := by
    rw [build, hbatch]
    dsimp only
    rw [ho]
  have hkeys : order.Perm (table.map (·.1)) := hperm.trans h.names.symm
  have hstart : Ordered (ofModules modules) r.isRegistered
      (([] : TypeTable).map (·.1) ++ order) := hord
  obtain ⟨he, hsub⟩ := buildAll_subset h.fresh hstart h.nodup (List.nil_subset _)
    (fun name hn => hkeys.mem_iff.1 hn) h.built
  obtain ⟨new, hnew, rfl, -⟩ := builtFrom_of_buildAll h.fresh hstart he
  rw [List.nil_append] at hnew
  rw [hnew] at hsub
  refine ⟨new, ?_, ?_⟩
  · have hlength : table.length ≤ new.length := by simpa using hkeys.length_eq.ge
    exact (List.subperm_of_subset (List.Nodup.of_map _ hord.nodup) hsub).perm_of_length_le hlength
  · simp only [register_eq, hbuild, he, hnew]
    rfl

theorem Accepts.perm (h : r.Accepts modules table) (hp : modules.Perm modules') :
    r.Accepts modules' table := by
  have hstructs : (ofModules modules).Perm (ofModules modules') := hp.flatMap_right _
  have hf := h.fresh.perm hstructs
  refine ⟨hf, h.names.trans (hstructs.map _),
    h.ordered.mono fun name d => hf.find?_mono hstructs.subset, fun p hp => ?_⟩
  obtain ⟨d, hd, hbuild⟩ := h.built p hp
  exact ⟨d, hstructs.mem_iff.1 hd, hbuild⟩

theorem Accepts.isRegistered (h : r.Accepts modules table) {d : BatchStruct}
    (hd : d ∈ ofModules modules) {target : Text} (ht : target ∈ d.targets) :
    (r.grown modules table).isRegistered target = true := by
  rw [isRegistered_grown]
  rcases (h.ordered.orderable h.fresh h.names).resolved d hd target (mem_targets_iff.1 ht) with
    ⟨e, he, rfl⟩ | hknown
  · exact .inr (h.names.mem_iff.2 (List.mem_map_of_mem he))
  · exact .inl hknown

theorem Accepts.refusal?_eq_none (h : r.Accepts modules table) {d : BatchStruct}
    (hd : d ∈ ofModules modules) : d.refusal? = none := by
  obtain ⟨p, hp, hname⟩ := List.mem_map.1 (h.names.mem_iff.2 (List.mem_map_of_mem hd))
  obtain ⟨d', hd', hname', hbuild⟩ := h.built p hp
  obtain rfl : d' = d := by
    have hfind := h.fresh.find?_eq hd'
    rw [hname', hname, h.fresh.find?_eq hd] at hfind
    exact (Option.some.inj hfind).symm
  exact (declares_of_build hbuild).creatable

/-- The tables of two batches, one of them registered after the other, are one for both together. -/
theorem Accepts.append (h : r.Accepts modules table)
    (h' : (r.grown modules table).Accepts more table') :
    r.Accepts (modules ++ more) (table ++ table') := by
  have hregistered := isRegistered_grown r modules table
  have hf : Fresh r.isRegistered (ofModules modules ++ ofModules more) :=
    h.fresh.append h'.fresh (fun name hn => (hregistered name).2 (.inl hn)) fun d hd =>
      (hregistered d.name).2 (.inr (h.names.mem_iff.2 (List.mem_map_of_mem hd)))
  have hleft := List.subset_append_left (ofModules modules) (ofModules more)
  have hright := List.subset_append_right (ofModules modules) (ofModules more)
  refine ⟨?_, ?_, ?_, fun p hp => ?_⟩ <;> rw [ofModules_append]
  · exact hf
  · rw [List.map_append, List.map_append]
    exact h.names.append h'.names
  · rw [List.map_append]
    refine (h.ordered.mono fun name d => hf.find?_mono hleft).append
      (h'.ordered.mono fun name d => hf.find?_mono hright) (fun name hn hm => ?_)
      fun name hn => ((hregistered name).1 hn).symm
    have hnew := h'.ordered.known_eq_false h'.fresh hn
    rw [(hregistered name).2 (.inr hm)] at hnew
    cases hnew
  · rcases List.mem_append.1 hp with hp | hp
    · obtain ⟨d, hd, hname, hbuild⟩ := h.built p hp
      refine ⟨d, hleft hd, hname, ?_⟩
      rw [← hbuild, ← List.append_assoc]
      exact build_mono (fun target ht => h.isRegistered hd ht)
        fun n t => TypeTable.lookup_append_of_some
    · obtain ⟨d, hd, hname, hbuild⟩ := h'.built p hp
      refine ⟨d, hright hd, hname, ?_⟩
      rwa [← List.append_assoc]

end

def registerEach (r : Registry) : List SchemaModule → Except RegistryError Registry
  | [] => .ok r
  | module :: modules =>
    match r.register [module] with
    | .error e => .error e
    | .ok (r, _) => r.registerEach modules

section

variable {r r' : Registry} {modules modules' : List SchemaModule} {table table' : TypeTable}

theorem accepts_of_registerEach (h : r.registerEach modules = .ok r') :
    ∃ table, r.Accepts modules table ∧ r' = r.grown modules table := by
  induction modules generalizing r with
  | nil =>
    cases h
    refine ⟨[], ⟨⟨List.nodup_nil, by simp [ofModules]⟩, .nil, .nil, ?_⟩, by simp [grown]⟩
    simp [TypeTable.BuiltFrom]
  | cons module modules ih =>
    rw [registerEach] at h
    cases hreg : r.register [module] with
    | error e => rw [hreg] at h; cases h
    | ok result =>
      obtain ⟨r₁, created⟩ := result
      rw [hreg] at h
      obtain ⟨table, htable, rfl⟩ := accepts_of_register hreg
      obtain ⟨table', htable', rfl⟩ := ih h
      exact ⟨table ++ table', htable.append htable', grown_grown ..⟩

theorem Alike.symm (h : r.Alike r') : r'.Alike r :=
  ⟨h.names.symm, fun name => (h.find name).symm, h.modules.symm⟩

theorem Accepts.alike (h : r.Accepts modules table) (hp : modules.Perm modules')
    (ht : table.Perm table') : (r.grown modules table).Alike (r.grown modules' table') where
  names := Text.sorted_eq_of_perm ((ht.append_left r.types).map _)
  find name := by
    simp only [find?, grown, List.lookup_append, TypeTable.lookup_of_perm h.nodup ht]
  modules := hp.append_left r.modules

/-- A batch that can add a table is registered in any order of its schemas, and with the same types. -/
theorem Accepts.exists_alike (h : r.Accepts modules table) (hp : modules.Perm modules') :
    ∃ r' created, r.register modules' = .ok (r', created) ∧
      (r.grown modules table).Alike r' := by
  obtain ⟨table', ht, hreg⟩ := (h.perm hp).exists_register
  exact ⟨_, _, hreg, h.alike hp ht.symm⟩

end

/-- In whatever order a batch gives its schemas, it is registered or it is not,
and the types are the same under the same names. If the schemas can be registered one at a time, in
some order, then as one batch too, with the same types. -/
theorem register_perm (r : Registry) {modules modules' : List SchemaModule}
    (h : modules.Perm modules') :
    ((∃ result, r.register modules = .ok result) ↔ ∃ result, r.register modules' = .ok result) ∧
    (∀ r₁ created₁ r₂ created₂, r.register modules = .ok (r₁, created₁) →
      r.register modules' = .ok (r₂, created₂) → r₁.Alike r₂) ∧
    ∀ r₂, r.registerEach modules' = .ok r₂ →
      ∃ r₁ created, r.register modules = .ok (r₁, created) ∧ r₁.Alike r₂ := by
  have hordered : ∀ {ms ms' : List SchemaModule} {r₁ created}, ms.Perm ms' →
      r.register ms = .ok (r₁, created) →
      ∃ r₂ created', r.register ms' = .ok (r₂, created') ∧ r₁.Alike r₂ := by
    intro ms ms' r₁ created hp hreg
    obtain ⟨table, htable, rfl⟩ := accepts_of_register hreg
    exact htable.exists_alike hp
  refine ⟨⟨?_, ?_⟩, fun r₁ created₁ r₂ created₂ h₁ h₂ => ?_, fun r₂ heach => ?_⟩
  · rintro ⟨⟨r₁, created⟩, hreg⟩
    obtain ⟨r₂, created', hreg', -⟩ := hordered h hreg
    exact ⟨_, hreg'⟩
  · rintro ⟨⟨r₁, created⟩, hreg⟩
    obtain ⟨r₂, created', hreg', -⟩ := hordered h.symm hreg
    exact ⟨_, hreg'⟩
  · obtain ⟨r', created', hreg, halike⟩ := hordered h h₁
    cases h₂.symm.trans hreg
    exact halike
  · obtain ⟨table, htable, rfl⟩ := accepts_of_registerEach heach
    obtain ⟨r₁, created, hreg, halike⟩ := htable.exists_alike h.symm
    exact ⟨r₁, created, hreg, halike.symm⟩

namespace Sample

def id : RecordType :=
  ⟨⟨0, "base.Id"⟩, "Id", "base.Id", [], [⟨"number", .primitive (.int .uint32), none⟩]⟩

def base : Registry := { origin := 0, types := [("base.Id", id)] }

end Sample

open Sample BatchStruct.Sample

theorem Sample.exists_register_base :
    ∃ r₁ created₁, base.register [hall, stock] = .ok (r₁, created₁) := by
  have hbatch : ofBatch base.isRegistered [hall, stock] = .ok (ofModules [hall, stock]) := rfl
  have hbase : base.isRegistered = isBase := by
    funext name
    rw [isRegistered, find?, base]
    simp only [List.lookup_cons, List.lookup_nil, isBase]
    cases name == Text.ofString "base.Id" with
    | false => rfl
    | true => rfl
  have horder : buildOrder base.isRegistered (ofModules [hall, stock]) =
      .ok ["stock.Item", "hall.Shelf", "hall.Room"] := by
    rw [hbase]
    cbv
  have herror : (base.build [hall, stock]).error? = none := by
    rw [build, hbatch]
    dsimp only
    rw [horder]
    rfl
  simp only [register_eq, herror]
  exact ⟨_, _, rfl⟩

/-- Two schemas, the first of which refers to the second. -/
theorem register_perm_packages :
    [hall, stock].Perm [stock, hall] ∧
    ∃ r₁ created₁ r₂ created₂, base.register [hall, stock] = .ok (r₁, created₁) ∧
      base.register [stock, hall] = .ok (r₂, created₂) ∧ r₁.Alike r₂ := by
  have h : [hall, stock].Perm [stock, hall] := .swap ..
  obtain ⟨hiff, halike, -⟩ := register_perm base h
  obtain ⟨r₁, created₁, h₁⟩ := exists_register_base
  obtain ⟨⟨r₂, created₂⟩, h₂⟩ := hiff.1 ⟨_, h₁⟩
  exact ⟨h, r₁, created₁, r₂, created₂, h₁, h₂, halike _ _ _ _ h₁ h₂⟩

end Registry

end RecordWire
