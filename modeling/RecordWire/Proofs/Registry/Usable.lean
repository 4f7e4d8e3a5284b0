import RecordWire.Proofs.Codec.Defaults
import RecordWire.Proofs.Registry.Reached
import RecordWire.Proofs.Schema.Comments

/-!
Whether registered types can be used: whether records of them can be made from any of their
fields, and come back from their plain data. No field has the name of a member of records, so this
is decided by the one name that cannot be given when a record is made.
-/

namespace RecordWire

open BatchStruct (reservedNames ofBatch ofModules buildOrder)

section

variable {types : Text → Option RecordType} {package : Text}

theorem TypeExpr.Denotes.schematic {e : TypeExpr} {layout : Codec}
    (h : e.Denotes types package layout)
    (ht : ∀ name type, types name = some type → (Layout.record type).Schematic) :
    layout.Schematic := by
  induction h with
  | primitive name => exact .primitive name.primitive
  | list _ ih => exact .list ih
  | map _ _ _ ihv => exact .map ihv
  | struct h => exact ht _ _ h

theorem TypeExpr.Denotes.isOrdinary {e : TypeExpr} {layout : Codec}
    (h : e.Denotes types package layout)
    (ht : ∀ name type, types name = some type → (Layout.record type).isOrdinary = true) :
    layout.isOrdinary = true := by
  induction h with
  | primitive name => rfl
  | list _ ih => exact ih
  | map _ _ _ ihv => exact ihv
  | struct h => exact ht _ _ h

namespace BatchStruct

variable {d : BatchStruct}

theorem DeclaresField.exists_defaultValue {f : FieldDecl} {field : Field} {v : Value}
    (h : d.DeclaresField types f field) (hv : field.default? = some v) :
    ∃ p text, field.layout = .primitive p ∧ defaultValue? p text = some v := by
  obtain ⟨-, -, hlayout, hdefault⟩ := h
  generalize field.layout = layout at hlayout ⊢
  rw [hv, fieldDefault] at hdefault
  split at hdefault
  · cases hdefault
  · split at hdefault
    · rename_i name hname
      split at hdefault
      · rename_i w hw
        cases hdefault
        rw [hname] at hlayout
        cases hlayout
        exact ⟨_, _, rfl, hw⟩
      · cases hdefault
    · cases hdefault

theorem DeclaresField.decoded_default {f : FieldDecl} {field : Field} {v : Value}
    (h : d.DeclaresField types f field) (hv : field.default? = some v) :
    ∃ p, field.layout = .primitive p ∧ p.Decoded v ∧ v.isNew = true := by
  obtain ⟨p, text, hlayout, hdefault⟩ := h.exists_defaultValue hv
  exact ⟨p, hlayout, Primitive.decoded_of_defaultValue hdefault⟩

theorem Declares.schematic {origin : Nat} {type : RecordType} (h : d.Declares origin types type)
    (hn : (d.struct.fields.map (·.name)).Nodup)
    (ht : ∀ name type, types name = some type → (Layout.record type).Schematic) :
    (Layout.record type).Schematic := by
  refine .record (h.fieldNames_eq ▸ hn) h.unreserved ?_ ?_
  · intro field hfield
    obtain ⟨f, -, hf⟩ := exists_of_forall₂ h.fields hfield
    exact hf.layout.schematic ht
  · intro field hfield v hv
    obtain ⟨f, -, hf⟩ := exists_of_forall₂ h.fields hfield
    exact hf.decoded_default hv

end BatchStruct

end

/-- The types of a table are such as schemas declare, if the fields of each struct have names of
their own. -/
theorem TypeTable.Grounded.schematic {origin : Nat} {structs : List BatchStruct} {table : TypeTable}
    (h : TypeTable.Grounded origin structs table)
    (hs : ∀ d ∈ structs, (d.struct.fields.map (·.name)).Nodup) {name : Text} {type : RecordType}
    (ht : table.lookup name = some type) : (Layout.record type).Schematic := by
  refine h.induct (P := fun type => (Layout.record type).Schematic) ?_ ht
  exact fun d hd types type _ hdeclares ih => hdeclares.schematic (hs d hd) ih

/-- If no type of a table has a field with a name such as the language has, then none has a part with
such a field. -/
theorem TypeTable.Grounded.isOrdinary {origin : Nat} {structs : List BatchStruct} {table : TypeTable}
    (h : TypeTable.Grounded origin structs table)
    (hd : ∀ p ∈ table, ∀ n ∈ p.2.fieldNames, ¬ Text.ofString "__" <+: n) {name : Text}
    {type : RecordType} (ht : table.lookup name = some type) :
    (Layout.record type).isOrdinary = true := by
  refine h.induct (P := fun type => (Layout.record type).isOrdinary = true) ?_ ht
  intro d _ types type hm hdeclares ih
  refine RecordLayout.isOrdinary_iff.2 ⟨hd _ hm, fun field hfield => ?_⟩
  obtain ⟨f, -, hf⟩ := exists_of_forall₂ hdeclares.fields hfield
  exact hf.layout.isOrdinary ih

namespace Registry

theorem Reached.schematic {r : Registry} (hr : r.Reached) {name : Text} {type : RecordType}
    (ht : r.find? name = some type) : (Layout.record type).Schematic :=
  hr.types.schematic (fun _ => hr.nodup_fields) ht

/-- Whatever loads led to a registry without fields that have names such as the language has, every
record of a registered type can be made from one of its fields, next to the defaults of the others,
unless the field has the name of the record itself. The record of defaults has plain data; they mean
it again unless a record in it has such a field. -/
theorem make_loaded (origin : Nat) (loads : List Load) (name : Text) (type : RecordType)
    (hd : ∀ p ∈ (loads.foldl afterLoad { origin }).types, ∀ n ∈ p.2.fieldNames,
      ¬ Text.ofString "__" <+: n)
    (ht : (loads.foldl afterLoad { origin }).find? name = some type) :
    (∀ f ∈ type.fieldNames, ∀ x, type.make [(f, x)] =
      if f = selfName then .error (.fault .unsupported)
      else .ok (.newRecord type (type.fields.map fun g => if g.name = f then x else g.default))) ∧
    type.make [] = .ok type.default ∧
    ∃ d, (Layout.record type).toPlain type.default = .ok d ∧
      type.fromDict d =
        if type.default.isMakeable then .ok type.default else .error (.fault .unsupported) := by
  have hr := reached_loads origin loads
  have hs := hr.schematic ht
  have ho := hr.types.isOrdinary hd ht
  have hi : type.isInstantiable = true := hs.isInstantiable ho
  refine ⟨fun _ hf x => RecordLayout.make_one hi hf x, ?_, RecordLayout.fromDict_default hs ho⟩
  rw [RecordLayout.make_nil, if_pos hi]

namespace Sample

def lines : List Text := ["syntax 1.0.0", "package p", "struct R " ++ [CodePoint.openBrace],
  " uint8 a = 3, self", [CodePoint.closeBrace]]

def count : FieldDecl := ⟨"a", .primitive (.proper (.int .uint8)), some "3", 4, 7⟩

def own : FieldDecl := ⟨"self", .primitive (.proper (.int .uint8)), none, 4, 14⟩

def schema : SchemaModule := ⟨"1.0.0", "p", [⟨"R", [count, own], 3⟩], "s"⟩

def type : RecordType := ⟨⟨0, "p.R"⟩, "R", "p.R", [],
  [⟨"a", .primitive (.int .uint8), some (.int 3)⟩, ⟨"self", .primitive (.int .uint8), none⟩]⟩

def load : Load := .text "s" (Text.join [CodePoint.lineFeed] lines)

theorem parse_lines : Schema.parse "s" (Text.join [CodePoint.lineFeed] lines) = .ok schema :=
  Schema.parse_of_parseFields (by decide) (by decide) (by decide)
    (Schema.parseFields_of_split (.primitive (.proper (.int .uint8))) (by decide) rfl rfl rfl rfl)
    rfl

theorem after_load : [load].foldl afterLoad { origin := 0 } =
    { origin := 0, types := [("p.R", type)], modules := [schema] } := by
  have hbatch : ofBatch ({ origin := 0 } : Registry).isRegistered [schema] =
      .ok (ofModules [schema]) := rfl
  have horder : buildOrder ({ origin := 0 } : Registry).isRegistered (ofModules [schema]) =
      .ok ["p.R"] := by
    cbv
  exact afterLoad_text_of_build parse_lines hbatch horder rfl

theorem find?_type : ([load].foldl afterLoad { origin := 0 }).find? "p.R" = some type := by
  rw [after_load]
  rfl

end Sample

open Sample

/-- A value of another kind for one field, next to the default of the other. The record of
defaults does not come back. -/
theorem make_loaded_one :
    ((∀ p ∈ ([load].foldl afterLoad { origin := 0 }).types, ∀ n ∈ p.2.fieldNames,
        ¬ Text.ofString "__" <+: n) ∧
      ([load].foldl afterLoad { origin := 0 }).find? "p.R" = some type) ∧
    type.make [("a", .text "x")] = .ok (.newRecord type [.text "x", .int 0]) ∧
    type.make [] = .ok (.newRecord type [.int 3, .int 0]) ∧
    ∃ d, (Layout.record type).toPlain type.default = .ok d ∧
      type.fromDict d = .error (.fault .unsupported) := by
  have hnames : ∀ p ∈ ([load].foldl afterLoad { origin := 0 }).types, ∀ n ∈ p.2.fieldNames,
      ¬ Text.ofString "__" <+: n := by
    rw [after_load]
    decide
  obtain ⟨hone, hmade, hback⟩ := make_loaded 0 [load] "p.R" type hnames find?_type
  exact ⟨⟨hnames, find?_type⟩, hone "a" (by decide) _, hmade, hback⟩

/-- A field with the name of the record itself is accepted. It cannot be given when a record is
made, and no record of the type comes back from plain data. -/
theorem make_own_name :
    ([load].foldl afterLoad { origin := 0 }).find? "p.R" = some type ∧ selfName ∈ type.fieldNames ∧
      type.make [(selfName, .int 5)] = .error (.fault .unsupported) ∧
      ∃ d, (Layout.record type).toPlain type.default = .ok d ∧
        type.fromDict d = .error (.fault .unsupported) := by
  refine ⟨find?_type, by decide, rfl, .dict [(.text "a", .int 3), (.text "self", .int 0)], ?_, ?_⟩
  · have hplain : ∀ p v, (Layout.primitive p).toPlain v = .ok v := fun p v => by rw [Layout.toPlain]
    rw [RecordLayout.default_eq, Layout.toPlain_record]
    simp only [type, List.map_cons, List.map_nil, List.zip_cons_cons, List.zip_nil_right, hplain]
    rfl
  · rfl

end Registry

end RecordWire
