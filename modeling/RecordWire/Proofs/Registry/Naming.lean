import RecordWire.Proofs.Registry.Reached
import RecordWire.Proofs.Schema.TypeText

/-!
Names of layouts as type expressions. A layout that comes from a schema goes by a name in which every
struct stands with its package. So the name is a type expression that means this very layout, in
whatever package it is read: it names the types themselves, not what the package calls by such names.
-/

namespace RecordWire

namespace TypeExpr

/-- The expression is the name of the layout: primitives go by their proper names, and types are found
under the names that they go by, each that of a struct behind its package. -/
inductive Names (types : Text → Option RecordType) : TypeExpr → Codec → Prop
  | primitive (p : Primitive) : Names types (.primitive (.proper p)) (.primitive p)
  | list {e : TypeExpr} {layout : Codec} (h : Names types e layout) :
      Names types (.list e) (.list layout)
  | map (key : Primitive) {e : TypeExpr} {layout : Codec} (h : Names types e layout) :
      Names types (.map (.primitive (.proper key)) e) (.map key layout)
  | record {package name : Text} {type : RecordType} (hp : package.isIdentifier = true)
      (hn : name.isIdentifier = true) (hname : type.typeName = StructRef.join package name)
      (h : types type.typeName = some type) : Names types (.struct name (some package)) (.record type)

/-- Every type is found under the name that it goes by, which is that of a struct in a package. -/
def AreNamed (types : Text → Option RecordType) : Prop :=
  ∀ key type, types key = some type → type.typeName = key ∧ ∃ package name : Text,
    package.isIdentifier = true ∧ name.isIdentifier = true ∧ key = StructRef.join package name

variable {types types' : Text → Option RecordType} {e : TypeExpr} {layout : Codec}

namespace Names

theorem isProper (h : e.Names types layout) : e.IsProper := by
  induction h with
  | primitive p => exact .primitive _
  | list _ ih => exact .list ih
  | map key _ ih => exact .map (.primitive _) ih
  | record hp hn _ _ => exact .qualified hp hn

theorem text_eq (h : e.Names types layout) : e.text = layout.name := by
  induction h with
  | primitive p => rfl
  | list _ ih => rw [text, Layout.name, ih]
  | map key _ ih =>
    rw [text, Layout.name, ih]
    rfl
  | record _ _ hname _ => exact hname.symm

theorem parse_name (h : e.Names types layout) : parse layout.name = .ok e := by
  rw [← h.text_eq]
  exact parse_text h.isProper

theorem layout_eq (h : e.Names types layout) (package : Text) :
    e.layout types package = .ok layout := by
  induction h with
  | primitive p => rfl
  | list _ ih =>
    rw [TypeExpr.layout, ih]
    rfl
  | map key _ ih => rw [TypeExpr.layout, ih, TypeExpr.layout, PrimitiveName.primitive]
  | record _ _ hname htype =>
    rw [hname] at htype
    simp only [TypeExpr.layout, StructRef.qualified, Option.getD_some, htype]

theorem mono (h : e.Names types layout)
    (hle : ∀ key type, types key = some type → types' key = some type) :
    e.Names types' layout := by
  induction h with
  | primitive p => exact .primitive p
  | list _ ih => exact .list ih
  | map key _ ih => exact .map key ih
  | record hp hn hname htype => exact .record hp hn hname (hle _ _ htype)

theorem isSome_of_refs (h : e.Names types layout) {package : Text} {ref : StructRef}
    (hr : ref ∈ e.refs) : (types (ref.qualified package)).isSome = true := by
  induction h with
  | primitive p => cases hr
  | list _ ih => exact ih hr
  | map key _ ih => exact ih (by simpa [refs] using hr)
  | record _ _ hname htype =>
    obtain rfl := List.mem_singleton.1 hr
    rw [hname] at htype
    simp [StructRef.qualified, htype]

end Names

theorem Denotes.exists_names {package : Text} (h : e.Denotes types package layout)
    (ht : AreNamed types) : ∃ e', Names types e' layout := by
  induction h with
  | primitive name => exact ⟨_, .primitive name.primitive⟩
  | list _ ih =>
    obtain ⟨e', he⟩ := ih
    exact ⟨_, .list he⟩
  | map _ _ _ ih =>
    obtain ⟨e', he⟩ := ih
    exact ⟨_, .map _ he⟩
  | struct htype =>
    obtain ⟨hkey, package, name, hp, hn, hname⟩ := ht _ _ htype
    rw [← hkey] at hname htype
    exact ⟨_, .record hp hn hname htype⟩

end TypeExpr

/-- A layout within another one, at any depth: the element of a list, the key or the value of a map, or
the layout of a field of a record. -/
inductive Layout.IsPart : Codec → Codec → Prop
  | self (layout : Codec) : IsPart layout layout
  | element {part element : Codec} (h : IsPart part element) : IsPart part (.list element)
  | key (key : Primitive) (value : Codec) : IsPart (.primitive key) (.map key value)
  | value {part value : Codec} (key : Primitive) (h : IsPart part value) : IsPart part (.map key value)
  | field {part : Codec} {type : RecordType} {f : Field} (hf : f ∈ type.fields)
      (h : IsPart part f.layout) : IsPart part (.record type)

namespace Registry

open TypeExpr (Names AreNamed)

namespace Reached

variable {r : Registry}

theorem areNamed (hr : r.Reached) : AreNamed r.find? := by
  intro key type ht
  obtain ⟨d, hd, rfl, hdeclares⟩ := hr.types.exists_declares ht
  obtain ⟨lines, hm, hs⟩ := hr.exists_sound hd
  exact ⟨hdeclares.typeName, d.module.package, d.struct.name, hm.package, hs.name, rfl⟩

theorem isIdentifier_name (hr : r.Reached) {key : Text} {type : RecordType}
    (ht : r.find? key = some type) {f : Field} (hf : f ∈ type.fields) :
    f.name.isIdentifier = true := by
  obtain ⟨d, hd, -, hdeclares⟩ := hr.types.exists_declares ht
  obtain ⟨lines, -, hs⟩ := hr.exists_sound hd
  obtain ⟨decl, hdecl, hfield⟩ := exists_of_forall₂ hdeclares.fields hf
  rw [hfield.name]
  exact (hs.fields decl hdecl).1

theorem exists_names (hr : r.Reached) {key : Text} {type : RecordType}
    (ht : r.find? key = some type) {f : Field} (hf : f ∈ type.fields) :
    ∃ e, Names r.find? e f.layout := by
  obtain ⟨d, -, -, hdeclares⟩ := hr.types.exists_declares ht
  obtain ⟨decl, -, hdecl⟩ := exists_of_forall₂ hdeclares.fields hf
  exact hdecl.layout.exists_names hr.areNamed

theorem exists_names_of_isPart (hr : r.Reached) {part layout : Codec} (hpart : part.IsPart layout)
    (h : ∃ e, Names r.find? e layout) : ∃ e, Names r.find? e part := by
  induction hpart with
  | self layout => exact h
  | element _ ih =>
    obtain ⟨e, he⟩ := h
    cases he with
    | list he => exact ih ⟨_, he⟩
  | key key value => exact ⟨_, .primitive key⟩
  | value key _ ih =>
    obtain ⟨e, he⟩ := h
    cases he with
    | map _ he => exact ih ⟨_, he⟩
  | field hf _ ih =>
    obtain ⟨e, he⟩ := h
    cases he with
    | record _ _ _ htype => exact ih (hr.exists_names htype hf)

end Reached

end Registry

end RecordWire
