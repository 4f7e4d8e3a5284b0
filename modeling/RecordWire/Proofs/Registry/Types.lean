import Mathlib.Data.List.Basic
import Mathlib.Data.List.Forall2
import RecordWire.Proofs.Registry.Order
import RecordWire.Registry.Build

/-!
The types that a batch builds. A type says what its struct declares, field by field, and the record
types in its layouts are those that stand under the names that the declaration refers to. In a table
of types that were built in order, these stand before the type itself.
-/

namespace RecordWire

theorem forall₂_of_collect {ε α β : Type} {f : β → Except ε α} {xs : List β} {ys : List α}
    (h : collect (xs.map f) = .ok ys) : List.Forall₂ (fun x y => f x = .ok y) xs ys := by
  have hm := eq_map_of_collect h
  rw [← List.forall₂_eq_eq_eq, List.forall₂_map_left_iff, List.forall₂_map_right_iff] at hm
  exact hm

theorem exists_of_forall₂ {α β : Type} {R : α → β → Prop} {xs : List α} {ys : List β}
    (h : List.Forall₂ R xs ys) {y : β} (hy : y ∈ ys) : ∃ x ∈ xs, R x y := by
  induction h with
  | nil => cases hy
  | cons head _ ih =>
    rcases List.mem_cons.1 hy with rfl | hy
    · exact ⟨_, by simp, head⟩
    · obtain ⟨x, hx, hR⟩ := ih hy
      exact ⟨x, by simp [hx], hR⟩

/-- The layout that an expression in a package means, with record types by qualified name. -/
inductive TypeExpr.Denotes (types : Text → Option RecordType) (package : Text) :
    TypeExpr → Codec → Prop
  | primitive (name : PrimitiveName) :
      Denotes types package (.primitive name) (.primitive name.primitive)
  | list {element : TypeExpr} {layout : Codec} (h : Denotes types package element layout) :
      Denotes types package (.list element) (.list layout)
  | map {key value : TypeExpr} {p : Primitive} {layout : Codec}
      (hk : Denotes types package key (.primitive p)) (hv : Denotes types package value layout) :
      Denotes types package (.map key value) (.map p layout)
  | struct {name : Text} {package? : Option Text} {type : RecordType}
      (h : types (StructRef.qualified ⟨name, package?⟩ package) = some type) :
      Denotes types package (.struct name package?) (.record type)

/-- The record types that a layout has as parts, those within these left out. -/
def Layout.records {δ : Type} : Layout δ → List (RecordLayout δ)
  | .primitive _ => []
  | .rgb565 => []
  | .list element => element.records
  | .map _ value => value.records
  | .record type => [type]

section

variable {types types' : Text → Option RecordType} {package : Text}

namespace TypeExpr

theorem denotes_of_layout {e : TypeExpr} {layout : Codec} (h : e.layout types package = .ok layout) :
    e.Denotes types package layout := by
  induction e generalizing layout with
  | primitive name => cases h; exact .primitive name
  | list element ih =>
    rw [TypeExpr.layout] at h
    cases he : element.layout types package with
    | error err => rw [he] at h; cases h
    | ok inner => rw [he] at h; cases h; exact .list (ih he)
  | map key value ihk ihv =>
    rw [TypeExpr.layout] at h
    split at h
    · cases h
    · cases h
    · rename_i hk hv
      cases h
      exact .map (ihk hk) (ihv hv)
    · cases h
  | struct name package? =>
    rw [TypeExpr.layout] at h
    split at h
    · rename_i type htype
      cases h
      exact .struct htype
    · cases h

theorem illegal_of_layout {e : TypeExpr} {err : WireError}
    (h : e.layout types package = .error err)
    (hr : ∀ ref ∈ e.refs, (types (ref.qualified package)).isSome = true) :
    ∃ why, err = .illegal why := by
  induction e generalizing err with
  | primitive name => cases h
  | list element ih =>
    rw [TypeExpr.layout] at h
    cases he : element.layout types package with
    | error err' => rw [he] at h; cases h; exact ih he hr
    | ok inner => rw [he] at h; cases h
  | map key value ihk ihv =>
    simp only [refs, List.mem_append] at hr
    rw [TypeExpr.layout] at h
    split at h
    · rename_i hk
      cases h
      exact ihk hk fun ref hm => hr ref (.inl hm)
    · rename_i hv _
      cases h
      exact ihv hv fun ref hm => hr ref (.inr hm)
    · cases h
    · cases h
      exact ⟨_, rfl⟩
  | struct name package? =>
    obtain ⟨type, htype⟩ := Option.isSome_iff_exists.1 (hr ⟨name, package?⟩ (by simp [refs]))
    rw [TypeExpr.layout, htype] at h
    cases h

theorem Denotes.mono {e : TypeExpr} {layout : Codec} (h : e.Denotes types package layout)
    (hle : ∀ name type, types name = some type → types' name = some type) :
    e.Denotes types' package layout := by
  induction h with
  | primitive name => exact .primitive name
  | list _ ih => exact .list ih
  | map _ _ ihk ihv => exact .map ihk ihv
  | struct h => exact .struct (hle _ _ h)

theorem Denotes.exists_ref {e : TypeExpr} {layout : Codec} (h : e.Denotes types package layout)
    {type : RecordType} (ht : type ∈ layout.records) :
    ∃ ref ∈ e.refs, types (ref.qualified package) = some type := by
  induction h with
  | primitive name => cases ht
  | list _ ih => exact ih ht
  | map _ _ _ ihv =>
    obtain ⟨ref, hr, href⟩ := ihv ht
    exact ⟨ref, List.mem_append_right _ hr, href⟩
  | struct h =>
    obtain rfl : type = _ := by simpa [Layout.records] using ht
    exact ⟨_, List.mem_singleton_self _, h⟩

end TypeExpr

namespace BatchStruct

/-- A field is what a struct declares, with record types by qualified name. -/
structure DeclaresField (types : Text → Option RecordType) (d : BatchStruct) (f : FieldDecl)
    (field : Field) : Prop where
  name : field.name = f.name
  unreserved : f.name ∉ reservedNames
  layout : f.type.Denotes types d.module.package field.layout
  default : d.fieldDefault f = .ok field.default?

/-- A type is what a struct declares: it goes by the qualified name of the struct, and it has the
fields of the struct in their order. -/
structure Declares (origin : Nat) (types : Text → Option RecordType) (d : BatchStruct)
    (type : RecordType) : Prop where
  id : type.id = ⟨origin, d.name⟩
  className : type.className = d.struct.name
  typeName : type.typeName = d.name
  bases : type.bases = []
  fields : List.Forall₂ (d.DeclaresField types) d.struct.fields type.fields
  creatable : d.refusal? = none

variable {origin : Nat} {d : BatchStruct} {f : FieldDecl} {type : RecordType}

theorem DeclaresField.mono {field : Field} (h : d.DeclaresField types f field)
    (hle : ∀ name type, types name = some type → types' name = some type) :
    d.DeclaresField types' f field :=
  ⟨h.name, h.unreserved, h.layout.mono hle, h.default⟩

theorem Declares.mono (h : d.Declares origin types type)
    (hle : ∀ name type, types name = some type → types' name = some type) :
    d.Declares origin types' type :=
  ⟨h.id, h.className, h.typeName, h.bases, h.fields.imp fun _ _ hf => hf.mono hle, h.creatable⟩

theorem Declares.fieldNames_eq (h : d.Declares origin types type) :
    type.fieldNames = d.struct.fields.map (·.name) := by
  have hsame : List.Forall₂ (fun f field => field.name = f.name) d.struct.fields type.fields :=
    h.fields.imp fun _ _ hf => hf.name
  rw [RecordLayout.fieldNames, ← List.forall₂_eq_eq_eq, List.forall₂_map_left_iff,
    List.forall₂_map_right_iff]
  exact hsame.flip

theorem Declares.unreserved (h : d.Declares origin types type) :
    ∀ n ∈ type.fieldNames, n ∉ reservedNames := by
  rw [RecordLayout.fieldNames, List.forall_mem_map]
  intro field hfield
  obtain ⟨f, -, hf⟩ := exists_of_forall₂ h.fields hfield
  rw [hf.name]
  exact hf.unreserved

theorem declaresField_of_buildField {field : Field} (h : d.buildField types f = .ok field) :
    d.DeclaresField types f field := by
  rw [buildField] at h
  split at h
  · cases h
  · rename_i hr
    split at h
    · cases h
    · cases h
    · rename_i layout hl
      split at h
      · cases h
      · rename_i default? hd
        cases h
        exact ⟨rfl, by simpa using hr, TypeExpr.denotes_of_layout hl, hd⟩

theorem schema_of_buildField {e : RegistryError} (h : d.buildField types f = .error e)
    (hr : ∀ ref ∈ f.type.refs, (types (ref.qualified d.module.package)).isSome = true) :
    ∃ s, e = .schema s := by
  rw [buildField] at h
  split at h
  · cases h
    exact ⟨_, rfl⟩
  · split at h
    · cases h
      exact ⟨_, rfl⟩
    · rename_i err hi hl
      obtain ⟨why, rfl⟩ := TypeExpr.illegal_of_layout hl hr
      exact absurd rfl (hi why)
    · split at h
      · cases h
        exact ⟨_, rfl⟩
      · cases h

theorem declares_of_build (h : d.build origin types = .ok type) : d.Declares origin types type := by
  rw [build] at h
  cases hc : collect (d.struct.fields.map (d.buildField types)) with
  | error e => rw [hc] at h; cases h
  | ok fields =>
    rw [hc] at h
    cases hr : d.refusal? with
    | some why => rw [hr] at h; cases h
    | none =>
      rw [hr] at h
      cases h
      exact ⟨rfl, rfl, rfl, rfl,
        (forall₂_of_collect hc).imp fun _ _ => declaresField_of_buildField, hr⟩

/-- A struct that refers to nothing but types is stopped by an error of its schema, or no type can be
made of it. -/
theorem stops_of_build {e : RegistryError} (h : d.build origin types = .error e)
    (hr : ∀ target ∈ d.targets, (types target).isSome = true) :
    (∃ s, e = .schema s) ∨ ∃ why, d.refusal? = some why ∧ e = .fault why := by
  rw [build] at h
  cases hc : collect (d.struct.fields.map (d.buildField types)) with
  | ok fields =>
    rw [hc] at h
    cases hwhy : d.refusal? with
    | none => rw [hwhy] at h; cases h
    | some why =>
      rw [hwhy] at h
      cases h
      exact .inr ⟨why, rfl, rfl⟩
  | error e' =>
    rw [hc] at h
    cases h
    obtain ⟨f, hf, he⟩ := exists_error_of_collect hc
    exact .inl (schema_of_buildField he fun ref href => hr _ (mem_targets hf href))

end BatchStruct

end

namespace TypeTable

/-- A table in which every type is what one of the structs declares, with the types before it. -/
inductive Grounded (origin : Nat) (structs : List BatchStruct) : TypeTable → Prop
  | nil : Grounded origin structs []
  | snoc {table : TypeTable} {d : BatchStruct} {type : RecordType}
      (h : Grounded origin structs table) (hm : d ∈ structs) (hn : table.lookup d.name = none)
      (hd : d.Declares origin (table.lookup ·) type) :
      Grounded origin structs (table ++ [(d.name, type)])

variable {origin : Nat} {structs more : List BatchStruct} {table : TypeTable}

theorem lookup_append_of_some {table later : TypeTable} {name : Text} {type : RecordType}
    (h : table.lookup name = some type) : (table ++ later).lookup name = some type := by
  rw [List.lookup_append, h, Option.some_or]

theorem lookup_eq_none_iff {table : TypeTable} {name : Text} :
    table.lookup name = none ↔ name ∉ table.map (·.1) := by
  rw [List.lookup_eq_none_iff, List.mem_map]
  constructor
  · rintro h ⟨p, hp, rfl⟩
    simpa using h p hp
  · intro h p hp
    simpa using fun heq : name = p.1 => h ⟨p, hp, heq.symm⟩

theorem isSome_lookup_iff {table : TypeTable} {name : Text} :
    (table.lookup name).isSome = true ↔ name ∈ table.map (·.1) := by
  rw [← not_iff_not, ← lookup_eq_none_iff, Bool.not_eq_true, Option.isSome_eq_false_iff,
    Option.isNone_iff_eq_none]

namespace Grounded

theorem mono (h : Grounded origin structs table) (hsub : structs ⊆ more) :
    Grounded origin more table := by
  induction h with
  | nil => exact .nil
  | snoc _ hm hn hd ih => exact ih.snoc (hsub hm) hn hd

/-- What holds of a type of a table whenever it holds of the types that it is declared with holds of
every type in the table. -/
theorem induct {P : RecordType → Prop} (h : Grounded origin structs table)
    (step : ∀ d ∈ structs, ∀ (types : Text → Option RecordType) type, (d.name, type) ∈ table →
      d.Declares origin types type → (∀ name other, types name = some other → P other) → P type)
    {name : Text} {type : RecordType} (ht : table.lookup name = some type) : P type := by
  induction h generalizing name type with
  | nil => cases ht
  | @snoc table d last _ hm _ hd ih =>
    have ih' : ∀ {name type}, table.lookup name = some type → P type := ih fun d hd types type hm =>
      step d hd types type (List.mem_append_left _ hm)
    rw [List.lookup_append, Option.or_eq_some_iff] at ht
    rcases ht with ht | ⟨-, ht⟩
    · exact ih' ht
    · rw [List.lookup_cons] at ht
      split at ht
      · obtain rfl := Option.some.inj ht
        exact step d hm _ _ (by simp) hd fun _ _ => ih'
      · cases ht

theorem nodup (h : Grounded origin structs table) : (table.map (·.1)).Nodup := by
  induction h with
  | nil => exact List.nodup_nil
  | snoc _ _ hn _ ih =>
    rw [lookup_eq_none_iff] at hn
    rw [List.map_append, List.nodup_append]
    exact ⟨ih, by simp, fun n hm m hm' heq => hn (by simp_all)⟩

theorem typeName_of_mem (h : Grounded origin structs table) {p : Text × RecordType}
    (hp : p ∈ table) : p.2.typeName = p.1 := by
  induction h with
  | nil => cases hp
  | snoc _ _ _ hd ih =>
    rcases List.mem_append.1 hp with hp | hp
    · exact ih hp
    · obtain rfl : p = _ := by simpa using hp
      exact hd.typeName

theorem typeName_of_lookup (h : Grounded origin structs table) {name : Text} {type : RecordType}
    (ht : table.lookup name = some type) : type.typeName = name := by
  obtain ⟨before, behind, rfl, -⟩ := List.lookup_eq_some_iff.1 ht
  exact h.typeName_of_mem (p := (name, type)) (by simp)

/-- A type in a table is what a struct declares with the types before it, which it is not among. -/
theorem exists_earlier (h : Grounded origin structs table) {name : Text} {type : RecordType}
    (ht : table.lookup name = some type) :
    ∃ earlier later d, table = earlier ++ (name, type) :: later ∧ name ∉ earlier.map (·.1) ∧
      d ∈ structs ∧ d.name = name ∧ d.Declares origin (earlier.lookup ·) type := by
  induction h with
  | nil => cases ht
  | @snoc table d last h hm hn hd ih =>
    rw [List.lookup_append] at ht
    cases hl : table.lookup name with
    | some type' =>
      rw [hl] at ht
      obtain rfl : type' = type := by simpa using ht
      obtain ⟨earlier, later, d', rfl, hrest⟩ := ih hl
      exact ⟨earlier, later ++ [(d.name, last)], d', by simp, hrest⟩
    | none =>
      rw [hl, Option.none_or] at ht
      have hname : name = d.name := by
        by_contra hne
        rw [List.lookup_cons, beq_false_of_ne hne] at ht
        cases ht
      subst hname
      obtain rfl : last = type := by simpa using ht
      exact ⟨table, [], d, rfl, lookup_eq_none_iff.1 hn, hm, rfl, hd⟩

theorem exists_declares (h : Grounded origin structs table) {name : Text} {type : RecordType}
    (ht : table.lookup name = some type) :
    ∃ d ∈ structs, d.name = name ∧ d.Declares origin (table.lookup ·) type := by
  obtain ⟨earlier, later, d, rfl, -, hm, hname, hd⟩ := h.exists_earlier ht
  exact ⟨d, hm, hname, hd.mono fun _ _ => lookup_append_of_some⟩

end Grounded

end TypeTable

section

open BatchStruct

variable {origin : Nat} {known built : TypeTable} {declared structs : List BatchStruct}
  {names : List Text}

theorem TypeTable.Grounded.lookup_or (h : Grounded origin structs (known ++ built)) (name : Text) :
    (built.lookup name).or (known.lookup name) = (known ++ built).lookup name := by
  rw [List.lookup_append]
  cases hb : built.lookup name with
  | none => simp
  | some type =>
    have hnodup := h.nodup
    rw [List.map_append, List.nodup_append] at hnodup
    have hk : known.lookup name = none := lookup_eq_none_iff.2 fun hk =>
      hnodup.2.2 name hk name (isSome_lookup_iff.1 (by simp [hb])) rfl
    rw [hk, Option.some_or, Option.none_or]

/-- The next struct of an order is one of the batch, is not built yet, and finds the types that it
refers to. -/
theorem BatchStruct.Ordered.next {name : Text}
    (h : Ordered declared (fun n => (known.lookup n).isSome)
      (built.map (·.1) ++ name :: names)) :
    ∃ d, find? declared name = some d ∧ built.lookup name = none ∧
      ∀ target ∈ d.targets, ((built.lookup target).or (known.lookup target)).isSome = true := by
  obtain ⟨d, hd, hn, ht⟩ := h.at_place
  refine ⟨d, hd, TypeTable.lookup_eq_none_iff.2 hn, fun target hm => ?_⟩
  rw [Option.isSome_or, Bool.or_eq_true, TypeTable.isSome_lookup_iff]
  exact ht target hm

/-- What building the structs of a batch is stopped by. -/
inductive RegistryError.Stops (declared : List BatchStruct) : RegistryError → Prop
  | schema (s : SchemaError) : Stops declared (.schema s)
  | fault {d : BatchStruct} {why : Fault} (hd : d ∈ declared) (h : d.refusal? = some why) :
      Stops declared (.fault why)

theorem stops_of_buildAll {e : RegistryError}
    (h : (buildAll origin known declared built names).error? = some e)
    (ho : Ordered declared (fun n => (known.lookup n).isSome) (built.map (·.1) ++ names)) :
    e.Stops declared := by
  induction names generalizing built with
  | nil => cases h
  | cons name names ih =>
    obtain ⟨d, hd, -, ht⟩ := ho.next
    simp only [buildAll, hd] at h
    cases hb : d.build origin fun n => (built.lookup n).or (known.lookup n) with
    | error e' =>
      rw [hb] at h
      cases h
      rcases stops_of_build hb ht with ⟨s, rfl⟩ | ⟨why, hwhy, rfl⟩
      · exact .schema s
      · exact .fault (List.mem_of_find?_eq_some hd) hwhy
    | ok type =>
      rw [hb] at h
      exact ih h (by simpa using ho)

theorem grounded_of_buildAll (hg : TypeTable.Grounded origin structs (known ++ built))
    (hs : declared ⊆ structs) (hf : Fresh (fun n => (known.lookup n).isSome) declared)
    (ho : Ordered declared (fun n => (known.lookup n).isSome) (built.map (·.1) ++ names))
    (h : (buildAll origin known declared built names).error? = none) :
    TypeTable.Grounded origin structs (known ++ (buildAll origin known declared built names).built) ∧
      (buildAll origin known declared built names).built.map (·.1) = built.map (·.1) ++ names := by
  induction names generalizing built with
  | nil => exact ⟨hg, by simp [buildAll]⟩
  | cons name names ih =>
    obtain ⟨d, hd, hn, -⟩ := ho.next
    simp only [buildAll, hd] at h ⊢
    cases hb : d.build origin fun n => (built.lookup n).or (known.lookup n) with
    | error e => rw [hb] at h; cases h
    | ok type =>
      rw [hb] at h
      have hm := List.mem_of_find?_eq_some hd
      obtain rfl := name_of_find? hd
      have hk : (known ++ built).lookup d.name = none := by
        have := hf.untaken d hm
        rw [List.lookup_append, hn, Option.or_none]
        simpa using this
      have hd' : d.Declares origin ((known ++ built).lookup ·) type :=
        (declares_of_build hb).mono fun n _ ht => hg.lookup_or n ▸ ht
      have hsnoc : TypeTable.Grounded origin structs (known ++ (built ++ [(d.name, type)])) := by
        simpa using hg.snoc (hs hm) hk hd'
      obtain ⟨hgrown, hnames⟩ := ih hsnoc (by simpa using ho) h
      exact ⟨hgrown, by simpa using hnames⟩

end

end RecordWire
