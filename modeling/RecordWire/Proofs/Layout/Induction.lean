import RecordWire.Layout.Operation

/-!
Induction over layouts. A record type is reached through the layouts of its fields, so that one case
for records stands for the three kinds of declarations that layouts are made of.
-/

namespace RecordWire

variable {δ : Type}

/-- What holds of primitives and colours, and of every other layout if it holds of its parts, holds
of all layouts. -/
theorem Layout.induct {P : Layout δ → Prop} (primitive : ∀ p, P (.primitive p)) (rgb565 : P .rgb565)
    (list : ∀ element, P element → P (.list element))
    (map : ∀ key value, P value → P (.map key value))
    (record : ∀ type : RecordLayout δ, (∀ f ∈ type.fields, P f.layout) → P (.record type)) :
    ∀ layout, P layout :=
  @Layout.rec δ P (fun type => ∀ f ∈ type.fields, P f.layout) (fun f => P f.layout)
    (fun fields => ∀ f ∈ fields, P f.layout) primitive rgb565 list map record
    (fun _ _ _ _ _ h => h) (fun _ _ _ h => h) (by simp)
    (fun _ _ hf hfs => by simpa using ⟨hf, hfs⟩)

mutual

/-- Whether a property holds of a layout and of all layouts in it. -/
def Layout.every (p : Layout δ → Bool) : Layout δ → Bool
  | .primitive q => p (.primitive q)
  | .rgb565 => p .rgb565
  | .list element => p (.list element) && element.every p
  | .map key value => p (.map key value) && value.every p
  | .record type => p (.record type) && type.every p

def RecordLayout.every (p : Layout δ → Bool) : RecordLayout δ → Bool
  | ⟨_, _, _, _, fields⟩ => FieldLayout.everyOf p fields

def FieldLayout.everyOf (p : Layout δ → Bool) : List (FieldLayout δ) → Bool
  | [] => true
  | ⟨_, layout, _⟩ :: fields => layout.every p && FieldLayout.everyOf p fields

end

theorem FieldLayout.everyOf_eq_true {p : Layout δ → Bool} {fields : List (FieldLayout δ)} :
    everyOf p fields = true ↔ ∀ f ∈ fields, f.layout.every p = true := by
  induction fields with
  | nil => simp [everyOf]
  | cons f fields ih => cases f; simp [everyOf, ih]

theorem RecordLayout.every_eq_true {p : Layout δ → Bool} {type : RecordLayout δ} :
    type.every p = true ↔ ∀ f ∈ type.fields, f.layout.every p = true := by
  cases type
  exact FieldLayout.everyOf_eq_true

theorem Layout.every_true (layout : Layout δ) : layout.every (fun _ => true) = true := by
  induction layout using Layout.induct with
  | primitive | rgb565 => rfl
  | list element ih => exact ih
  | map key value ih => exact ih
  | record type ih => exact RecordLayout.every_eq_true.2 ih

/-- Whether no record type in a layout hides one of some operations. -/
def Layout.shows (operations : List Operation) (layout : Layout δ) : Bool :=
  layout.every fun
    | .record type => operations.all fun operation => !type.hides operation
    | _ => true

section

variable {operations : List Operation}

theorem Layout.shows_record {type : RecordLayout δ} :
    (Layout.record type).shows operations = true ↔
      (∀ operation ∈ operations, type.hides operation = false) ∧
        ∀ f ∈ type.fields, f.layout.shows operations = true := by
  simp [shows, every, RecordLayout.every_eq_true]

theorem Layout.shows_append {more : List Operation} {layout : Layout δ} :
    layout.shows (operations ++ more) = true ↔
      layout.shows operations = true ∧ layout.shows more = true := by
  induction layout using Layout.induct with
  | primitive | rgb565 => exact ⟨fun _ => ⟨rfl, rfl⟩, fun _ => rfl⟩
  | list element ih => exact ih
  | map key value ih => exact ih
  | record type ih =>
    simp only [Layout.shows_record, List.forall_mem_append]
    constructor
    · rintro ⟨⟨hs, ht⟩, hfs⟩
      exact ⟨⟨hs, fun f hf => ((ih f hf).1 (hfs f hf)).1⟩, ht, fun f hf => ((ih f hf).1 (hfs f hf)).2⟩
    · rintro ⟨⟨hs, hf₁⟩, ht, hf₂⟩
      exact ⟨⟨hs, ht⟩, fun f hf => (ih f hf).2 ⟨hf₁ f hf, hf₂ f hf⟩⟩

theorem Layout.areSized_eq_true {fields : List (FieldLayout δ)} :
    Layout.areSized fields = true ↔ ∀ f ∈ fields, f.layout.isSized = true := by
  induction fields with
  | nil => simp [Layout.areSized]
  | cons f fields ih => cases f; simp [Layout.areSized, ih]

theorem Layout.isSized_of_shows {layout : Layout δ} (hm : .minEncodedSize ∈ operations)
    (h : layout.shows operations = true) : layout.isSized = true := by
  induction layout using Layout.induct with
  | primitive | rgb565 | list | map => rfl
  | record type ih =>
    obtain ⟨ht, hfs⟩ := Layout.shows_record.1 h
    have hs : Layout.areSized type.fields = true :=
      Layout.areSized_eq_true.2 fun f hf => ih f hf (hfs f hf)
    have hh := ht _ hm
    cases type
    simp only [Layout.isSized, RecordLayout.isSized, hh, hs, Bool.not_false, Bool.and_self]

theorem Layout.areInstantiable_eq_true {fields : List (FieldLayout δ)} :
    Layout.areInstantiable fields = true ↔
      ∀ f ∈ fields, f.default?.isSome = true ∨ f.layout.isInstantiable = true := by
  induction fields with
  | nil => simp [Layout.areInstantiable]
  | cons f fields ih => cases f; simp [Layout.areInstantiable, ih]

theorem RecordLayout.isInstantiable_iff {type : RecordLayout δ} :
    type.isInstantiable = true ↔ type.isConstructible = true ∧
      ∀ f ∈ type.fields, f.default?.isSome = true ∨ f.layout.isInstantiable = true := by
  cases type
  simp [isInstantiable, Layout.areInstantiable_eq_true]

theorem RecordLayout.isConstructible_iff {type : RecordLayout δ} :
    type.isConstructible = true ↔
      ∀ operation ∈ Operation.ofMaking, type.hides operation = false := by
  simp [isConstructible]

theorem Layout.isInstantiable_of_shows {layout : Layout δ}
    (hm : ∀ operation ∈ Operation.ofMaking, operation ∈ operations)
    (h : layout.shows operations = true) : layout.isInstantiable = true := by
  induction layout using Layout.induct with
  | primitive | rgb565 | list | map => rfl
  | record type ih =>
    obtain ⟨ht, hfs⟩ := Layout.shows_record.1 h
    exact RecordLayout.isInstantiable_iff.2
      ⟨RecordLayout.isConstructible_iff.2 fun operation ho => ht operation (hm operation ho),
        fun f hf => .inr (ih f hf (hfs f hf))⟩

end

end RecordWire
