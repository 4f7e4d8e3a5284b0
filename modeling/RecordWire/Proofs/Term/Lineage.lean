import RecordWire.Proofs.Registry.Usable
import RecordWire.Term.Record

/-!
Record types on top of each other. A type that is declared on top of another has the fields of that
one first and then its own, which take no name again. So the fields of a type are those that the types
of its lineage have declared, from the first type on, and they tell each other apart by their names.
-/

namespace RecordWire

namespace DeclarationBody

variable {body : DeclarationBody}

theorem mem_put {name : Text} {made? : Option MadeField} {m : Text × Option MadeField}
    (h : m ∈ body.put name made?) : m = (name, made?) ∨ m ∈ body ∧ m.1 ≠ name := by
  unfold put at h
  split at h
  · obtain ⟨m', hm', rfl⟩ := List.mem_map.1 h
    by_cases he : m'.1 = name
    · simp [he]
    · simp [he, hm']
  · rename_i hname
    rcases List.mem_append.1 h with hm | hm
    · refine .inr ⟨hm, fun he => hname ?_⟩
      exact List.any_eq_true.2 ⟨m, hm, by simpa using he⟩
    · exact .inl (List.mem_singleton.1 hm)

theorem nodup_put {name : Text} (made? : Option MadeField) (h : (body.map (·.1)).Nodup) :
    ((body.put name made?).map (·.1)).Nodup := by
  by_cases hname : name ∈ body.map (·.1)
  · have hany : (body.any fun m => m.1 == name) = true := by simpa using hname
    have hnames : (body.map fun m => if m.1 = name then (name, made?) else m).map (·.1) =
        body.map (·.1) := by
      rw [List.map_map]
      refine List.map_congr_left fun m _ => ?_
      by_cases hm : m.1 = name
      · simp [hm]
      · simp [hm]
    rwa [put, if_pos hany, hnames]
  · have hany : ¬ (body.any fun m => m.1 == name) = true := by simpa using hname
    rw [put, if_neg hany, List.map_append, List.map_singleton, ← List.concat_eq_append]
    exact h.concat hname

/-- Every name stands for a field of its own, made before those with numbers below the bound. -/
structure IsApart (body : DeclarationBody) (bound : Nat) : Prop where
  nodup : (body.map (·.1)).Nodup
  made : ∀ m ∈ body, ∃ made, m.2 = some made ∧ bound ≤ made.number
  apart : ∀ m ∈ body, ∀ m' ∈ body, ∀ made made' : MadeField, m.2 = some made →
    m'.2 = some made' → made.number = made'.number → m.1 = m'.1

theorem isApart_nil (bound : Nat) : IsApart [] bound := ⟨List.nodup_nil, by simp, by simp⟩

namespace IsApart

theorem put {name : Text} {made : MadeField} {bound : Nat} (h : IsApart body (bound + 1))
    (hm : made.number = bound) : IsApart (body.put name (some made)) bound where
  nodup := nodup_put _ h.nodup
  made m hmem := by
    rcases mem_put hmem with rfl | ⟨hold, -⟩
    · exact ⟨made, rfl, hm.ge⟩
    · obtain ⟨other, ho, hb⟩ := h.made m hold
      exact ⟨other, ho, by omega⟩
  apart m hmem m' hmem' a a' ha ha' he := by
    -- A field that was there before has a number above that of the new one.
    have hold : ∀ m ∈ body, ∀ a, m.2 = some a → a.number ≠ bound := by
      intro m hm a ha
      obtain ⟨other, ho, hb⟩ := h.made m hm
      cases ho.symm.trans ha
      omega
    rcases mem_put hmem with rfl | ⟨hm₁, -⟩ <;> rcases mem_put hmem' with rfl | ⟨hm₂, -⟩
    · rfl
    · cases ha
      exact absurd (he.symm.trans hm) (hold m' hm₂ a' ha')
    · cases ha'
      exact absurd (he.trans hm) (hold m hm₁ a ha)
    · exact h.apart m hm₁ m' hm₂ a a' ha ha' he

variable {bound : Nat}

theorem nameOf_eq (h : IsApart body bound) {m : Text × Option MadeField} (hm : m ∈ body)
    {made : MadeField} (hmade : m.2 = some made) : body.nameOf made = m.1 := by
  unfold nameOf
  split
  · rename_i m' hfind
    have hsome := List.find?_some hfind
    obtain ⟨other, hother, hnumber⟩ := (Option.any_eq_true _ _).1 hsome
    have hmem : m' ∈ body := List.mem_reverse.1 (List.mem_of_find?_eq_some hfind)
    exact h.apart m' hmem m hm other made hother hmade (by simpa using hnumber)
  · rename_i hnone
    have := List.find?_eq_none.1 hnone m (List.mem_reverse.2 hm)
    simp [hmade] at this

theorem map_name_fields (h : IsApart body bound) : body.fields.map (·.name) = body.map (·.1) := by
  rw [fields, List.map_filterMap, ← List.filterMap_eq_map]
  refine List.filterMap_congr fun m hm => ?_
  obtain ⟨made, hmade, -⟩ := h.made m hm
  simp [hmade, h.nameOf_eq hm hmade]

theorem members_eq (h : IsApart body bound) : body.members = body.map (·.1) := by
  rw [members, List.filter_eq_self.2]
  intro m hm
  obtain ⟨made, hmade, -⟩ := h.made m hm
  simp [hmade]

end IsApart

end DeclarationBody

open DeclarationBody

namespace FieldTerm

variable {types : TypeScope} {scope : Term.Scope}

theorem exists_made {layout : Except WireError Codec} {number : Nat} {default? : Option Term}
    {made? : Option MadeField} (h : make scope layout number default? = .ok made?) :
    ∃ made, made? = some made ∧ made.number = number := by
  unfold make at h
  split at h
  · cases h
  · cases h
    exact ⟨_, rfl, rfl⟩
  · split at h
    · cases h
    · cases h
      exact ⟨_, rfl, rfl⟩

theorem exists_made_of_isOwn {f : FieldTerm} (hf : f.isOwn = true) {body : DeclarationBody}
    {number : Nat} {made? : Option MadeField}
    (h : f.resolve types scope body number = .ok made?) :
    ∃ made, made? = some made ∧ made.number = number := by
  obtain ⟨name, kind, default?⟩ := f
  cases kind with
  | layout term => exact exists_made h
  | recordType name => exact exists_made h
  | value term =>
    simp only [resolve] at h
    split at h <;> cases h
  | sameAs name => cases hf
  | empty => cases hf

theorem isApart_bindAll {fs : List FieldTerm} (hf : ∀ f ∈ fs, f.isOwn = true)
    {body after : DeclarationBody} (hb : IsApart body fs.length)
    (h : bindAll types scope body fs = .ok after) : IsApart after 0 := by
  induction fs generalizing body with
  | nil =>
    cases h
    exact hb
  | cons f fs ih =>
    rw [bindAll] at h
    split at h
    · cases h
    · rename_i made? hmade
      obtain ⟨made, rfl, hnumber⟩ := exists_made_of_isOwn (hf f List.mem_cons_self) hmade
      exact ih (fun g hg => hf g (List.mem_cons_of_mem f hg)) (hb.put hnumber) h

end FieldTerm

namespace RecordTerm

variable {types : TypeScope} {scope : Term.Scope} {origin : Nat} {t : RecordTerm}
  {base type : RecordType} {own : List Field}

theorem isApart_body (ht : t.isPlain = true) {body : DeclarationBody}
    (h : t.body types scope = .ok body) : IsApart body 0 :=
  FieldTerm.isApart_bindAll (List.all_eq_true.1 ht) (isApart_nil _) h

theorem fields_of_extend {base? : Option RecordType} {body : DeclarationBody}
    (hb : IsApart body 0) (h : t.extend origin base? body = .ok type) :
    type.fields = (base?.map (·.fields)).getD [] ++ body.fields ∧
      ∀ f ∈ body.fields, f.name ∉ ((base?.map (·.fields)).getD []).map (·.name) := by
  rw [extend] at h
  split at h
  · cases h
  · split at h
    · cases h
    · split at h
      · cases h
      · rename_i hkept
        have hkeeps : ¬ (body.any fun m => m.1 == Operation.fieldsMember) = true := by
          rw [hb.members_eq] at hkept
          simpa using hkept
        simp only [if_neg hkeeps] at h
        split at h
        · cases h
        · rename_i hfind
          cases h
          refine ⟨rfl, fun f hf => ?_⟩
          have hname : f.name ∈ body.members := by
            rw [hb.members_eq, ← hb.map_name_fields]
            exact List.mem_map_of_mem hf
          simpa using List.find?_eq_none.1 hfind f.name hname

theorem nodup_ownFields (ht : t.isPlain = true) (h : t.ownFields types scope = .ok own) :
    (own.map (·.name)).Nodup := by
  obtain ⟨body, hbody, rfl⟩ := map_eq_ok_iff.1 h
  have hapart := isApart_body ht hbody
  rw [hapart.map_name_fields]
  exact hapart.nodup

theorem fields_of_declare {base? : Option RecordType} (ht : t.isPlain = true)
    (hb : t.base?.map types = base?.map some) (ho : t.ownFields types scope = .ok own)
    (h : t.declare types scope origin = .ok type) :
    type.fields = (base?.map (·.fields)).getD [] ++ own ∧
      ∀ f ∈ own, f.name ∉ ((base?.map (·.fields)).getD []).map (·.name) := by
  obtain ⟨body, hbody, rfl⟩ := map_eq_ok_iff.1 ho
  have hapart := isApart_body ht hbody
  simp only [declare, hbody] at h
  cases hbase : t.base? with
  | none =>
    rw [hbase] at hb h
    obtain rfl : base? = none := by simpa using hb.symm
    exact fields_of_extend hapart h
  | some name =>
    rw [hbase] at hb h
    cases base? with
    | none => simp at hb
    | some base =>
      simp only [Option.map_some, Option.some.injEq] at hb
      simp only [hb] at h
      exact fields_of_extend hapart h

theorem fields_of_first (ht : t.isPlain = true) (hb : t.base? = none)
    (ho : t.ownFields types scope = .ok own) (h : t.declare types scope origin = .ok type) :
    type.fields = own := by
  have hnone : t.base?.map types = (none : Option RecordType).map some := by rw [hb]; rfl
  exact (fields_of_declare ht hnone ho h).1

/-- The type is declared on top of another one, with fields of its own. -/
def Extends (base : RecordType) (own : List Field) (type : RecordType) : Prop :=
  ∃ (types : TypeScope) (scope : Term.Scope) (origin : Nat) (t : RecordTerm) (name : Text),
    t.isPlain = true ∧ t.base? = some name ∧ types name = some base ∧
      t.ownFields types scope = .ok own ∧ t.declare types scope origin = .ok type

/-- The type is the last of types on top of each other, the first of them declared on top of none or
loaded from a schema. The parts are the fields that each of them has of its own. -/
inductive Lineage : RecordType → List (List Field) → Prop
  | loaded {r : Registry} {name : Text} {type : RecordType} (hr : r.Reached)
      (h : r.find? name = some type) : Lineage type [type.fields]
  | first {types : TypeScope} {scope : Term.Scope} {origin : Nat} {t : RecordTerm}
      {own : List Field} {type : RecordType} (ht : t.isPlain = true) (hb : t.base? = none)
      (ho : t.ownFields types scope = .ok own) (h : t.declare types scope origin = .ok type) :
      Lineage type [own]
  | next {base type : RecordType} {parts : List (List Field)} {own : List Field}
      (hb : Lineage base parts) (h : Extends base own type) : Lineage type (parts ++ [own])

/-- The second type comes from the first by declarations on top of each other. The parts are the
fields that each of these adds. -/
inductive Descends (base : RecordType) : RecordType → List (List Field) → Prop
  | self : Descends base base []
  | next {middle type : RecordType} {parts : List (List Field)} {own : List Field}
      (hm : Descends base middle parts) (h : Extends middle own type) :
      Descends base type (parts ++ [own])

namespace Extends

theorem spec (h : Extends base own type) : type.fields = base.fields ++ own ∧
    (own.map (·.name)).Nodup ∧ ∀ f ∈ own, f.name ∉ base.fieldNames := by
  obtain ⟨types, scope, origin, t, name, ht, hb, hbase, ho, hd⟩ := h
  have hbase? : t.base?.map types = (some base).map some := by simp [hb, hbase]
  obtain ⟨hfields, hnew⟩ := fields_of_declare ht hbase? ho hd
  exact ⟨hfields, nodup_ownFields ht ho, hnew⟩

theorem nodup (h : Extends base own type) (hn : base.fieldNames.Nodup) :
    type.fieldNames.Nodup := by
  obtain ⟨hfields, hown, hnew⟩ := h.spec
  rw [RecordLayout.fieldNames, hfields, List.map_append, List.nodup_append]
  refine ⟨hn, hown, fun n hbn m hm he => ?_⟩
  obtain ⟨f, hf, rfl⟩ := List.mem_map.1 hm
  exact hnew f hf (he ▸ hbn)

end Extends

namespace Lineage

variable {parts : List (List Field)}

theorem fields_eq (h : Lineage type parts) : type.fields = parts.flatten := by
  induction h with
  | loaded _ _ => simp
  | first ht hb ho hd => simp [fields_of_first ht hb ho hd]
  | next _ hd ih => simp [hd.spec.1, ih]

theorem nodup (h : Lineage type parts) : type.fieldNames.Nodup := by
  induction h with
  | loaded hr ht =>
    cases hr.schematic ht with
    | record hn _ _ _ => exact hn
  | first ht hb ho hd =>
    rw [RecordLayout.fieldNames, fields_of_first ht hb ho hd]
    exact nodup_ownFields ht ho
  | next _ hd ih => exact hd.nodup ih

end Lineage

namespace Descends

variable {added : List (List Field)}

theorem fields_eq (h : Descends base type added) :
    type.fields = base.fields ++ added.flatten := by
  induction h with
  | self => simp
  | next _ hd ih => simp [hd.spec.1, ih]

end Descends

theorem exists_lineage_of_declare (hp : t.isPlain = true)
    (h : t.declare types scope origin = .ok type)
    (ht : ∀ name base, types name = some base → ∃ parts, Lineage base parts) :
    ∃ parts, Lineage type parts := by
  cases ho : t.ownFields types scope with
  | error e =>
    rw [declare, map_eq_error_iff.1 ho] at h
    cases h
  | ok own =>
    cases hb : t.base? with
    | none => exact ⟨_, .first hp hb ho h⟩
    | some name =>
      cases hbase : types name with
      | none =>
        obtain ⟨body, hbody, -⟩ := map_eq_ok_iff.1 ho
        simp only [declare, hbody, hb, hbase] at h
        cases h
      | some base =>
        obtain ⟨parts, hparts⟩ := ht name base hbase
        exact ⟨_, hparts.next ⟨types, scope, origin, t, name, hp, hb, hbase, ho, h⟩⟩

/-- Declarations one after the other give types with a lineage, whichever of the types before them
they are on top of. -/
theorem exists_lineage_of_declareAll {declared after : List (Text × RecordType)}
    {ts : List RecordTerm} (ht : ∀ t ∈ ts, t.isPlain = true)
    (h : declareAll declared ts = .ok after)
    (hd : ∀ p ∈ declared, ∃ parts, Lineage p.2 parts) :
    ∀ p ∈ after, ∃ parts, Lineage p.2 parts := by
  induction ts generalizing declared with
  | nil =>
    cases h
    exact hd
  | cons t ts ih =>
    rw [declareAll] at h
    split at h
    · cases h
    · rename_i type htype
      refine ih (fun u hu => ht u (List.mem_cons_of_mem t hu)) h (List.forall_mem_cons.2
        ⟨exists_lineage_of_declare (ht t List.mem_cons_self) htype ?_, hd⟩)
      intro name base hbase
      obtain ⟨before, behind, rfl, -⟩ := List.lookup_eq_some_iff.1 hbase
      exact hd (name, base) (by simp)

end RecordTerm

end RecordWire
