import Mathlib.Data.List.Basic
import Mathlib.Data.List.Perm.Basic
import Mathlib.Data.List.Perm.Subperm
import RecordWire.Registry.Order

/-!
The structs of a batch and the order in which they are built. The names of a batch are new and
different from each other. In the order every name stands once, and behind all names of the batch
that its struct refers to; whatever else the struct refers to was known before.
-/

namespace RecordWire.BatchStruct

def targets (d : BatchStruct) : List Text := d.refs.map fun r => r.2.qualified d.module.package

theorem mem_targets {d : BatchStruct} {f : FieldDecl} {ref : StructRef} (hf : f ∈ d.struct.fields)
    (hr : ref ∈ f.type.refs) : ref.qualified d.module.package ∈ d.targets :=
  List.mem_map.2 ⟨(f, ref), List.mem_flatMap.2 ⟨f, hf, List.mem_map_of_mem hr⟩, rfl⟩

theorem ofModules_append (modules more : List SchemaModule) :
    ofModules (modules ++ more) = ofModules modules ++ ofModules more := List.flatMap_append

/-- Structs under names that differ from each other and are not taken. -/
structure Fresh (taken : Text → Bool) (declared : List BatchStruct) : Prop where
  nodup : (declared.map name).Nodup
  untaken : ∀ d ∈ declared, taken d.name = false

section

variable {taken : Text → Bool} {declared all ds : List BatchStruct}

theorem Fresh.append_singleton (h : Fresh taken declared) {d : BatchStruct}
    (hd : (taken d.name || declared.any fun e => e.name == d.name) = false) :
    Fresh taken (declared ++ [d]) := by
  simp only [Bool.or_eq_false_iff, List.any_eq_false, beq_iff_eq] at hd
  constructor
  · rw [List.map_append, List.nodup_append]
    refine ⟨h.nodup, by simp, ?_⟩
    intro n hn m hm heq
    obtain ⟨e, he, rfl⟩ := List.mem_map.1 hn
    obtain rfl : m = d.name := by simpa using hm
    exact hd.2 e he heq
  · intro e he
    rcases List.mem_append.1 he with he | he
    · exact h.untaken e he
    · obtain rfl : e = d := by simpa using he
      exact hd.1

theorem addAll_spec (h : addAll taken declared ds = .ok all) (hf : Fresh taken declared) :
    all = declared ++ ds ∧ Fresh taken all := by
  induction ds generalizing declared with
  | nil => cases h; simpa using hf
  | cons d ds ih =>
    rw [addAll] at h
    cases hd : taken d.name || declared.any fun e => e.name == d.name with
    | true => rw [hd] at h; cases h
    | false =>
      rw [hd] at h
      simpa using ih h (hf.append_singleton hd)

theorem ofBatch_spec {modules : List SchemaModule} (h : ofBatch taken modules = .ok declared) :
    declared = ofModules modules ∧ Fresh taken declared := by
  simpa using addAll_spec h ⟨List.nodup_nil, by simp⟩

end

/-- An order of names of a batch in which every struct stands behind those that it refers to. -/
inductive Ordered (declared : List BatchStruct) (known : Text → Bool) : List Text → Prop
  | nil : Ordered declared known []
  | snoc {order : List Text} {name : Text} {d : BatchStruct} (h : Ordered declared known order)
      (hd : find? declared name = some d) (hn : name ∉ order)
      (ht : ∀ target ∈ d.targets, target ∈ order ∨ known target = true) :
      Ordered declared known (order ++ [name])

theorem name_of_find? {declared : List BatchStruct} {name : Text} {d : BatchStruct}
    (h : find? declared name = some d) : d.name = name := by
  simpa using List.find?_some h

theorem isSome_find? {declared : List BatchStruct} {d : BatchStruct} (h : d ∈ declared) :
    (find? declared d.name).isSome = true :=
  List.find?_isSome.2 ⟨d, h, by simp⟩

section

variable {declared : List BatchStruct} {known : Text → Bool}

namespace Ordered

theorem nodup {order : List Text} (h : Ordered declared known order) : order.Nodup := by
  induction h with
  | nil => exact List.nodup_nil
  | snoc _ _ hn _ ih =>
    exact List.nodup_append.2
      ⟨ih, by simp, fun n hm m hm' heq => hn (by simp_all)⟩

theorem exists_declared {order : List Text} (h : Ordered declared known order) {name : Text}
    (hn : name ∈ order) : ∃ d ∈ declared, d.name = name := by
  induction h with
  | nil => cases hn
  | @snoc _ _ d _ hd _ _ ih =>
    rcases List.mem_append.1 hn with hn | hn
    · exact ih hn
    · obtain rfl : name = _ := by simpa using hn
      exact ⟨d, List.mem_of_find?_eq_some hd, name_of_find? hd⟩

theorem at_place {done rest : List Text} {name : Text}
    (h : Ordered declared known (done ++ name :: rest)) :
    ∃ d, find? declared name = some d ∧ name ∉ done ∧
      ∀ target ∈ d.targets, target ∈ done ∨ known target = true := by
  generalize ho : done ++ name :: rest = order at h
  induction h generalizing rest with
  | nil => simp at ho
  | @snoc order last d _ hd hn ht ih =>
    rcases List.eq_nil_or_concat rest with rfl | ⟨rest, m, rfl⟩
    · obtain ⟨rfl, h⟩ := List.append_inj' ho rfl
      obtain rfl : name = last := by simpa using h
      exact ⟨d, hd, hn, ht⟩
    · rw [List.concat_eq_append, ← List.cons_append, ← List.append_assoc] at ho
      exact ih (List.append_inj' ho rfl).1

end Ordered

/-- What a visit makes of an order: it stays ordered and keeps its names, and no name of the path is
among the new ones. -/
structure Advances (declared : List BatchStruct) (known : Text → Bool) (path order order' : List Text) :
    Prop where
  ordered : Ordered declared known order'
  subset : order ⊆ order'
  off_path : ∀ name ∈ order', name ∈ order ∨ name ∉ path

namespace Advances

variable {path order order' order'' : List Text}

theorem refl (h : Ordered declared known order) : Advances declared known path order order :=
  ⟨h, fun _ => id, fun _ => .inl⟩

theorem trans (h : Advances declared known path order order')
    (h' : Advances declared known path order' order'') :
    Advances declared known path order order'' := by
  refine ⟨h'.ordered, fun _ hn => h'.subset (h.subset hn), fun name hn => ?_⟩
  rcases h'.off_path name hn with hn | hn
  · exact h.off_path name hn
  · exact .inr hn

theorem snoc {name : Text} {d : BatchStruct}
    (h : Advances declared known (path ++ [name]) order order') (hd : find? declared name = some d)
    (hn : name ∉ order) (hp : name ∉ path)
    (ht : ∀ target ∈ d.targets, target ∈ order' ∨ known target = true) :
    Advances declared known path order (order' ++ [name]) := by
  refine ⟨h.ordered.snoc hd (fun hn' => ?_) ht, fun n hm => by simp [h.subset hm], fun n hm => ?_⟩
  · rcases h.off_path name hn' with h | h
    · exact hn h
    · simp at h
  · rcases List.mem_append.1 hm with hm | hm
    · rcases h.off_path n hm with h | h
      · exact .inl h
      · exact .inr fun hp => h (by simp [hp])
    · obtain rfl : n = name := by simpa using hm
      exact .inr hp

end Advances

mutual

/-- A visit keeps the order and, if its name is of the batch, puts it in. -/
theorem visit_spec {path order order' : List Text} {name : Text}
    (ho : Ordered declared known order) (h : visit declared known path order name = .ok order') :
    Advances declared known path order order' ∧
      ((find? declared name).isSome = true → name ∈ order') := by
  by_cases hn : order.contains name = true
  · rw [visit, if_pos hn] at h
    cases h
    exact ⟨.refl ho, fun _ => by simpa using hn⟩
  rw [visit, if_neg hn] at h
  split at h
  · cases h
    exact ⟨.refl ho, by simp_all⟩
  · rename_i d hd
    by_cases hp : path.contains name = true
    · rw [dif_pos hp] at h
      cases h
    rw [dif_neg hp] at h
    have hlt := length_offPath_lt hd hp
    cases hv : visitRefs declared known (path ++ [name]) d d.refs order with
    | error e => rw [hv] at h; cases h
    | ok visited =>
      rw [hv] at h
      cases h
      obtain ⟨ha, ht⟩ := visitRefs_spec ho hv
      refine ⟨ha.snoc hd (by simpa using hn) (by simpa using hp) ?_, fun _ => by simp⟩
      intro target htarget
      obtain ⟨r, hr, rfl⟩ := List.mem_map.1 htarget
      exact ht r hr
termination_by ((offPath declared path).length, 0)
decreasing_by
  simp only [Prod.lex_def]
  omega

theorem visitRefs_spec {path order order' : List Text} {d : BatchStruct}
    {refs : List (FieldDecl × StructRef)} (ho : Ordered declared known order)
    (h : visitRefs declared known path d refs order = .ok order') :
    Advances declared known path order order' ∧
      ∀ r ∈ refs, r.2.qualified d.module.package ∈ order' ∨
        known (r.2.qualified d.module.package) = true := by
  match refs with
  | [] =>
    rw [visitRefs] at h
    cases h
    exact ⟨.refl ho, by simp⟩
  | (f, ref) :: refs =>
    rw [visitRefs] at h
    by_cases hs : (find? declared (ref.qualified d.module.package)).isSome = true
    · rw [if_pos hs] at h
      cases hv : visit declared known path order (ref.qualified d.module.package) with
      | error e => rw [hv] at h; cases h
      | ok visited =>
        rw [hv] at h
        obtain ⟨ha, hm⟩ := visit_spec ho hv
        obtain ⟨ha', hms⟩ := visitRefs_spec ha.ordered h
        exact ⟨ha.trans ha', List.forall_mem_cons.2 ⟨.inl (ha'.subset (hm hs)), hms⟩⟩
    · rw [if_neg hs] at h
      by_cases hk : known (ref.qualified d.module.package) = true
      · rw [if_pos hk] at h
        obtain ⟨ha, hms⟩ := visitRefs_spec ho h
        exact ⟨ha, List.forall_mem_cons.2 ⟨.inr hk, hms⟩⟩
      · rw [if_neg hk] at h
        cases h
termination_by ((offPath declared path).length, refs.length + 1)

end

theorem visitAll_spec {order order' : List Text} {ds : List BatchStruct}
    (ho : Ordered declared known order) (h : visitAll declared known order ds = .ok order') :
    Advances declared known [] order order' ∧
      ∀ d ∈ ds, (find? declared d.name).isSome = true → d.name ∈ order' := by
  induction ds generalizing order with
  | nil => cases h; exact ⟨.refl ho, by simp⟩
  | cons d ds ih =>
    rw [visitAll] at h
    cases hv : visit declared known [] order d.name with
    | error e => rw [hv] at h; cases h
    | ok visited =>
      rw [hv] at h
      obtain ⟨ha, hm⟩ := visit_spec ho hv
      obtain ⟨ha', hms⟩ := ih ha.ordered h
      refine ⟨ha.trans ha', fun e he hs => ?_⟩
      rcases List.mem_cons.1 he with rfl | he
      · exact ha'.subset (hm hs)
      · exact hms e he hs

/-- The order of a batch has all its names, each behind those that its struct refers to. -/
theorem buildOrder_spec {order : List Text} (hd : (declared.map name).Nodup)
    (h : buildOrder known declared = .ok order) :
    Ordered declared known order ∧ order.Perm (declared.map name) := by
  obtain ⟨ha, hm⟩ := visitAll_spec .nil h
  refine ⟨ha.ordered, (List.perm_ext_iff_of_nodup ha.ordered.nodup hd).2 fun name => ?_⟩
  constructor
  · intro hn
    obtain ⟨d, hd, rfl⟩ := ha.ordered.exists_declared hn
    exact List.mem_map_of_mem hd
  · intro hn
    obtain ⟨d, hd, rfl⟩ := List.mem_map.1 hn
    exact hm d hd (isSome_find? hd)

end

end RecordWire.BatchStruct
