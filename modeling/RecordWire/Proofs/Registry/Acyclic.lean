import Mathlib.Data.List.Chain
import Mathlib.Data.List.Nodup
import Mathlib.Logic.Relation
import RecordWire.Codec.Collect
import RecordWire.Proofs.Registry.Order

/-!
When the structs of a batch can be ordered. The search ends with an order exactly if whatever the
structs refer to is of the batch or known before, and no struct refers to itself, directly or through
others. A search that fails has found a reference that leads nowhere, or a way from a struct back to
itself: the end of the path that it went, closed by the name that it met again.
-/

namespace RecordWire

/-- The expression refers to a struct, at any depth. -/
inductive TypeExpr.Mentions (ref : StructRef) : TypeExpr → Prop
  | struct : Mentions ref (.struct ref.name ref.package?)
  | list {element : TypeExpr} (h : element.Mentions ref) : Mentions ref (.list element)
  | mapKey {key value : TypeExpr} (h : key.Mentions ref) : Mentions ref (.map key value)
  | mapValue {key value : TypeExpr} (h : value.Mentions ref) : Mentions ref (.map key value)

theorem TypeExpr.mem_refs_iff {ref : StructRef} {e : TypeExpr} : ref ∈ e.refs ↔ e.Mentions ref := by
  constructor
  · intro h
    induction e with
    | primitive => cases h
    | list element ih => exact .list (ih h)
    | map key value ihk ihv =>
      rcases List.mem_append.1 h with h | h
      · exact .mapKey (ihk h)
      · exact .mapValue (ihv h)
    | struct name package? =>
      obtain rfl := List.mem_singleton.1 h
      exact .struct
  · intro h
    induction h with
    | struct => exact List.mem_singleton_self ref
    | list _ ih => exact ih
    | mapKey _ ih => exact List.mem_append_left _ ih
    | mapValue _ ih => exact List.mem_append_right _ ih

theorem transGen_of_isChain {α : Type} {R : α → α → Prop} {a b : α} {way : List α}
    (h : (a :: way ++ [b]).IsChain R) : Relation.TransGen R a b := by
  induction way generalizing a with
  | nil => exact .single (List.isChain_pair.1 h)
  | cons c way ih =>
    obtain ⟨hac, hc⟩ := List.isChain_cons_cons.1 h
    exact .head hac (ih hc)

namespace BatchStruct

/-- A field of the struct has a type that refers to something. -/
structure Mentions (d : BatchStruct) (f : FieldDecl) (ref : StructRef) : Prop where
  field : f ∈ d.struct.fields
  type : f.type.Mentions ref

/-- A field of the struct refers to a qualified name. -/
def RefersTo (d : BatchStruct) (target : Text) : Prop :=
  ∃ f ref, d.Mentions f ref ∧ ref.qualified d.module.package = target

theorem mem_refs_iff {d : BatchStruct} {f : FieldDecl} {ref : StructRef} :
    (f, ref) ∈ d.refs ↔ d.Mentions f ref := by
  simp only [refs, List.mem_flatMap, List.mem_map, Prod.mk.injEq]
  constructor
  · rintro ⟨_, hf, _, hr, rfl, rfl⟩
    exact ⟨hf, TypeExpr.mem_refs_iff.1 hr⟩
  · rintro ⟨hf, hr⟩
    exact ⟨f, hf, ref, TypeExpr.mem_refs_iff.2 hr, rfl, rfl⟩

theorem mem_targets_iff {d : BatchStruct} {target : Text} :
    target ∈ d.targets ↔ d.RefersTo target := by
  simp only [targets, List.mem_map, Prod.exists, mem_refs_iff]
  rfl

section

variable (declared : List BatchStruct) (known : Text → Bool)

def Refers (name target : Text) : Prop := ∃ d ∈ declared, d.name = name ∧ d.RefersTo target

/-- The name is that of a struct of the batch, or known before. -/
def Resolves (target : Text) : Prop := (∃ d ∈ declared, d.name = target) ∨ known target = true

/-- What it takes to order a batch. -/
structure Orderable : Prop where
  resolved : ∀ d ∈ declared, ∀ target, d.RefersTo target → Resolves declared known target
  acyclic : ∀ name, ¬ Relation.TransGen (Refers declared) name name

/-- Each struct of the batch stands in the order once, behind those of the batch that it refers to. -/
structure IsOrder (order : List Text) : Prop where
  perm : order.Perm (declared.map name)
  nodup : order.Nodup
  behind : ∀ done name rest, order = done ++ name :: rest → ∀ e ∈ declared,
    Refers declared name e.name → e.name ∈ done

/-- Each name refers to the next one; the last is the first again, and the others differ. -/
def IsCycle (names : List Text) : Prop :=
  ∃ name way, names = name :: way ++ [name] ∧ (name :: way).Nodup ∧
    names.IsChain (Refers declared)

/-- What keeps a batch from being ordered, with the place that it is reported for. -/
inductive Hinders : SchemaError → Prop
  | unknown {d : BatchStruct} {f : FieldDecl} {ref : StructRef} (hd : d ∈ declared)
    (hm : d.Mentions f ref) (hn : ¬ Resolves declared known (ref.qualified d.module.package)) :
    Hinders (d.problemAt f (.unknownType ref))
  | cycle {d : BatchStruct} {names : List Text} (hd : d ∈ declared) (hc : IsCycle declared names)
    (hfirst : names.head? = some d.name) : Hinders (d.problem (.cycle names))

end

section

variable {declared : List BatchStruct} {known : Text → Bool}

theorem Fresh.find?_eq (hf : Fresh known declared) {d : BatchStruct} (hd : d ∈ declared) :
    find? declared d.name = some d := by
  obtain ⟨d', hd'⟩ := Option.isSome_iff_exists.1 (isSome_find? hd)
  obtain rfl : d' = d :=
    List.inj_on_of_nodup_map hf.nodup (List.mem_of_find?_eq_some hd') hd (name_of_find? hd')
  exact hd'

theorem Orderable.not_hinders (h : Orderable declared known) {e : SchemaError} :
    ¬ Hinders declared known e := by
  rintro (⟨hd, hm, hn⟩ | ⟨-, ⟨name, way, rfl, -, hchain⟩, -⟩)
  · exact hn (h.resolved _ hd _ ⟨_, _, hm, rfl⟩)
  · exact h.acyclic name (transGen_of_isChain hchain)

theorem isCycle_of_mem {path : List Text} {name : Text} (hn : path.Nodup)
    (hc : (path ++ [name]).IsChain (Refers declared)) (hm : name ∈ path) :
    IsCycle declared (path.dropWhile (fun n => n ≠ name) ++ [name]) ∧
      (path.dropWhile (fun n => n ≠ name) ++ [name]).head? = some name := by
  obtain ⟨before, way, rfl, hbefore⟩ := List.eq_append_cons_of_mem hm
  have hdrop : (before ++ name :: way).dropWhile (fun n => n ≠ name) = name :: way := by
    rw [List.dropWhile_append_of_pos, List.dropWhile_cons_of_neg (by simp)]
    intro n hmem
    exact decide_eq_true fun heq => hbefore (heq ▸ hmem)
  rw [hdrop]
  refine ⟨⟨name, way, rfl, (List.nodup_append.1 hn).2.1, ?_⟩, rfl⟩
  rw [List.append_assoc] at hc
  exact hc.right_of_append

mutual

/-- A visit that fails, on a path on which each name refers to the next, has found what hinders the
batch. -/
theorem hinders_of_visit {path order : List Text} {name : Text} {e : SchemaError}
    (hn : path.Nodup) (hc : (path ++ [name]).IsChain (Refers declared))
    (h : visit declared known path order name = .error e) : Hinders declared known e := by
  rw [visit] at h
  split at h
  · cases h
  · split at h
    · cases h
    · rename_i d hd
      by_cases hp : path.contains name = true
      · rw [dif_pos hp] at h
        cases h
        obtain ⟨hcycle, hfirst⟩ := isCycle_of_mem hn hc (by simpa using hp)
        exact .cycle (List.mem_of_find?_eq_some hd) hcycle (by rw [hfirst, name_of_find? hd])
      · rw [dif_neg hp] at h
        have hlt := length_offPath_lt hd hp
        obtain rfl := name_of_find? hd
        have hn' : (path ++ [d.name]).Nodup := by
          rw [← List.concat_eq_append, List.nodup_concat]
          exact ⟨by simpa using hp, hn⟩
        exact hinders_of_visitRefs (List.mem_of_find?_eq_some hd) hn' hc (fun _ hr => hr)
          (map_eq_error_iff.1 h)
termination_by ((offPath declared path).length, 0)
decreasing_by
  simp only [Prod.lex_def]
  omega

theorem hinders_of_visitRefs {path order : List Text} {d : BatchStruct} {e : SchemaError}
    {refs : List (FieldDecl × StructRef)} (hd : d ∈ declared) (hn : (path ++ [d.name]).Nodup)
    (hc : (path ++ [d.name]).IsChain (Refers declared)) (hr : ∀ r ∈ refs, r ∈ d.refs)
    (h : visitRefs declared known (path ++ [d.name]) d refs order = .error e) :
    Hinders declared known e := by
  match refs with
  | [] =>
    rw [visitRefs] at h
    cases h
  | (f, ref) :: refs =>
    obtain ⟨hm, hrs⟩ := List.forall_mem_cons.1 hr
    rw [mem_refs_iff] at hm
    rw [visitRefs] at h
    by_cases hs : (find? declared (ref.qualified d.module.package)).isSome = true
    · rw [if_pos hs] at h
      cases hv : visit declared known (path ++ [d.name]) order
          (ref.qualified d.module.package) with
      | error e' =>
        rw [hv] at h
        cases h
        refine hinders_of_visit hn (hc.append (.singleton _) ?_) hv
        intro n hlast target htarget
        obtain rfl : n = d.name := by simpa using hlast.symm
        obtain rfl : target = _ := by simpa using htarget.symm
        exact ⟨d, hd, rfl, f, ref, hm, rfl⟩
      | ok visited =>
        rw [hv] at h
        exact hinders_of_visitRefs hd hn hc hrs h
    · rw [if_neg hs] at h
      split at h
      · exact hinders_of_visitRefs hd hn hc hrs h
      · rename_i hk
        cases h
        refine .unknown hd hm fun hres => ?_
        rcases hres with ⟨d', hd', heq⟩ | hknown
        · exact hs (heq ▸ isSome_find? hd')
        · exact hk hknown
termination_by ((offPath declared (path ++ [d.name])).length, refs.length + 1)

end

theorem hinders_of_visitAll {order : List Text} {ds : List BatchStruct} {e : SchemaError}
    (h : visitAll declared known order ds = .error e) : Hinders declared known e := by
  induction ds generalizing order with
  | nil => cases h
  | cons d ds ih =>
    rw [visitAll] at h
    cases hv : visit declared known [] order d.name with
    | error e' =>
      rw [hv] at h
      cases h
      exact hinders_of_visit List.nodup_nil (.singleton _) hv
    | ok visited =>
      rw [hv] at h
      exact ih h

theorem Orderable.exists_buildOrder (h : Orderable declared known) :
    ∃ order, buildOrder known declared = .ok order := by
  cases ho : buildOrder known declared with
  | ok order => exact ⟨order, rfl⟩
  | error e => exact absurd (hinders_of_visitAll ho) h.not_hinders

/-- In front of the place of a struct in an order stands all that it refers to, but for what was known
before. -/
theorem Ordered.behind {order done rest : List Text} {d : BatchStruct}
    (h : Ordered declared known order) (hf : Fresh known declared) (hd : d ∈ declared)
    (ho : order = done ++ d.name :: rest) {target : Text} (hr : d.RefersTo target) :
    target ∈ done ∨ known target = true := by
  subst ho
  obtain ⟨d', hd', -, ht⟩ := h.at_place
  obtain rfl := Option.some.inj (hd'.symm.trans (hf.find?_eq hd))
  exact ht target (mem_targets_iff.2 hr)

theorem Ordered.isOrder {order : List Text} (h : Ordered declared known order)
    (hf : Fresh known declared) (hp : order.Perm (declared.map name)) : IsOrder declared order := by
  refine ⟨hp, h.nodup, ?_⟩
  rintro done _ rest ho e he ⟨d, hd, rfl, hr⟩
  rcases h.behind hf hd ho hr with hdone | hknown
  · exact hdone
  · rw [hf.untaken e he] at hknown
    cases hknown

theorem IsOrder.idxOf_lt {order : List Text} (h : IsOrder declared order) {name : Text}
    {e : BatchStruct} (he : e ∈ declared) (hr : Refers declared name e.name) :
    order.idxOf e.name < order.idxOf name := by
  obtain ⟨d, hd, rfl, -⟩ := id hr
  obtain ⟨done, rest, rfl, hdone⟩ :=
    List.eq_append_cons_of_mem (h.perm.mem_iff.2 (List.mem_map_of_mem hd))
  have hbefore := h.behind done d.name rest rfl e he hr
  rw [List.idxOf_append_of_mem hbefore, List.idxOf_append_of_notMem hdone, List.idxOf_cons_self,
    Nat.add_zero]
  exact List.idxOf_lt_length_of_mem hbefore

theorem IsOrder.acyclic {order : List Text} (h : IsOrder declared order) (name : Text) :
    ¬ Relation.TransGen (Refers declared) name name := by
  have hlt : ∀ {a b}, Relation.TransGen (Refers declared) a b → ∀ e ∈ declared, e.name = b →
      order.idxOf b < order.idxOf a := by
    intro a b hab
    induction hab with
    | single hr =>
      rintro e he rfl
      exact h.idxOf_lt he hr
    | tail _ hr ih =>
      rintro e he rfl
      obtain ⟨d, hd, hname, -⟩ := id hr
      exact Nat.lt_trans (h.idxOf_lt he hr) (ih d hd hname)
  intro hcycle
  obtain ⟨_, ⟨d, hd, hname, -⟩, -⟩ := Relation.TransGen.head'_iff.1 hcycle
  exact Nat.lt_irrefl _ (hlt hcycle d hd hname)

theorem Ordered.orderable {order : List Text} (h : Ordered declared known order)
    (hf : Fresh known declared) (hp : order.Perm (declared.map name)) :
    Orderable declared known := by
  refine ⟨fun d hd target hr => ?_, (h.isOrder hf hp).acyclic⟩
  obtain ⟨done, rest, rfl, -⟩ :=
    List.eq_append_cons_of_mem (hp.mem_iff.2 (List.mem_map_of_mem hd))
  rcases h.behind hf hd rfl hr with hdone | hknown
  · exact .inl (h.exists_declared (List.mem_append_left _ hdone))
  · exact .inr hknown

end

/-- The structs of a batch are ordered exactly if all that they refer to is of
the batch or known and none refers to itself, directly or through others. Each then stands once, behind
those that it refers to; and an error is reported for what keeps the batch from being ordered. -/
theorem buildOrder_search {known : Text → Bool} {modules : List SchemaModule}
    {declared : List BatchStruct} (h : ofBatch known modules = .ok declared) :
    ((∃ order, buildOrder known declared = .ok order) ↔ Orderable declared known) ∧
    (∀ order, buildOrder known declared = .ok order → IsOrder declared order) ∧
    ∀ e, buildOrder known declared = .error e → Hinders declared known e := by
  obtain ⟨-, hf⟩ := ofBatch_spec h
  refine ⟨⟨?_, Orderable.exists_buildOrder⟩, fun order ho => ?_, fun e he => ?_⟩
  · rintro ⟨order, ho⟩
    obtain ⟨hord, hperm⟩ := buildOrder_spec hf.nodup ho
    exact hord.orderable hf hperm
  · obtain ⟨hord, hperm⟩ := buildOrder_spec hf.nodup ho
    exact hord.isOrder hf hperm
  · exact hinders_of_visitAll he

namespace Sample

def item : StructDecl := ⟨"Item", [⟨"id", .struct "Id" (some "base"), none, 4, 12⟩], 3⟩

def shelf : StructDecl := ⟨"Shelf", [⟨"items", .map (.primitive (.proper .string))
  (.list (.struct "Item" (some "stock"))), none, 4, 28⟩], 3⟩

def room : StructDecl := ⟨"Room", [⟨"shelves", .list (.struct "Shelf" none), none, 7, 15⟩], 6⟩

def hall : SchemaModule := ⟨"0.0.1", "hall", [room, shelf], "hall.sme"⟩

def stock : SchemaModule := ⟨"0.0.1", "stock", [item], "stock.sme"⟩

def isBase (name : Text) : Bool := name == "base.Id"

end Sample

open Sample

/-- A schema that refers to itself and to another one, which refers to what was known before. -/
theorem buildOrder_search_packages :
    ofBatch isBase [hall, stock] = .ok (ofModules [hall, stock]) ∧
    buildOrder isBase (ofModules [hall, stock]) = .ok ["stock.Item", "hall.Shelf", "hall.Room"] ∧
    ((∃ order, buildOrder isBase (ofModules [hall, stock]) = .ok order) ↔
      Orderable (ofModules [hall, stock]) isBase) ∧
    (∀ order, buildOrder isBase (ofModules [hall, stock]) = .ok order →
      IsOrder (ofModules [hall, stock]) order) ∧
    ∀ e, buildOrder isBase (ofModules [hall, stock]) = .error e →
      Hinders (ofModules [hall, stock]) isBase e := by
  have h : ofBatch isBase [hall, stock] = .ok (ofModules [hall, stock]) := rfl
  exact ⟨h, by cbv, buildOrder_search h⟩

end BatchStruct

end RecordWire
