import RecordWire.Proofs.Codec.PlainData
import RecordWire.Registry.Build

/-!
The defaults of record types that schemas declare. A declared default was read from a text and can
be written, so it is a value that reading may return; all other defaults are those of a layout by
itself. Such a record can be made into plain data. These mean it again, unless a record in it has
a field that cannot be given by its name.
-/

namespace RecordWire

open BatchStruct (reservedNames)

namespace Primitive

variable {p : Primitive} {text : Text} {v : Value}

theorem decoded_default (p : Primitive) : p.Decoded p.default ∧ p.default.isNew = true := by
  cases p with
  | int kind =>
    refine ⟨⟨0, ?_, rfl⟩, rfl⟩
    obtain ⟨width, signed⟩ := kind
    cases width <;> cases signed <;> rfl
  | float => exact ⟨⟨.zero, 0, rfl, .inr ⟨0, by decide +kernel⟩⟩, rfl⟩
  | double => exact ⟨⟨.zero, 0, rfl⟩, rfl⟩
  | bool => exact ⟨⟨false, rfl⟩, rfl⟩
  | char => exact ⟨⟨0, by decide, rfl⟩, rfl⟩
  | string => exact ⟨⟨[], rfl⟩, rfl⟩

theorem fromPlain_int_text (kind : IntKind) (text : Text) : (int kind).fromPlain (.text text) =
    match Numeral.readInt? text with
    | some n => .ok (.int n)
    | none => .error (.invalid (.unreadableInteger kind (.text text))) := rfl

theorem fromPlain_bool_text (text : Text) : bool.fromPlain (.text text) =
    if Text.toLower (Text.trim text) = "true" || Text.toLower (Text.trim text) = "1" then
      .ok (.bool true)
    else if Text.toLower (Text.trim text) = "false" || Text.toLower (Text.trim text) = "0" then
      .ok (.bool false)
    else .error (.invalid (.unreadableBool (.text text))) := rfl

/-- What a text means for a primitive field is a value that reading may return, if it can be
written. -/
theorem decoded_of_fromPlain (h : p.fromPlain (.text text) = .ok v)
    (hw : (p.write {} v).error? = none) : p.Decoded v ∧ v.isNew = true := by
  cases p with
  | int kind =>
    rw [fromPlain_int_text] at h
    split at h
    · rename_i n _
      cases h
      refine ⟨⟨n, ?_, rfl⟩, rfl⟩
      by_contra hn
      have hwrite : (int kind).write {} (.int n) = .invalid (.outOfRange kind n) := if_neg hn
      rw [hwrite] at hw
      cases hw
    · cases h
  | float =>
    rw [fromPlain] at h
    split at h
    · cases h
    · rename_i x _
      split at h
      · rename_i hn
        cases h
        exact ⟨⟨x, 0, rfl, .inl hn⟩, rfl⟩
      · split at h
        · rename_i y hy
          cases h
          obtain ⟨bits, -, rfl⟩ := Option.map_eq_some_iff.1 hy
          exact ⟨⟨_, 0, rfl, .inr ⟨bits, rfl⟩⟩, rfl⟩
        · cases h
  | double =>
    obtain ⟨x, -, rfl⟩ := map_eq_ok_iff.1 h
    exact ⟨⟨x, 0, rfl⟩, rfl⟩
  | bool =>
    rw [fromPlain_bool_text] at h
    split at h
    · cases h
      exact ⟨⟨true, rfl⟩, rfl⟩
    · split at h
      · cases h
        exact ⟨⟨false, rfl⟩, rfl⟩
      · cases h
  | char =>
    obtain rfl : Value.text text = v := Except.ok.inj h
    rcases text with _ | ⟨c, _ | ⟨d, rest⟩⟩
    · cases hw
    · by_cases hc : c.val < 0x100
      · exact ⟨⟨c, hc, rfl⟩, rfl⟩
      · have hwrite : char.write {} (.text [c]) = .invalid (.notChar (.text [c])) := if_neg hc
        rw [hwrite] at hw
        cases hw
    · cases hw
  | string =>
    obtain rfl : Value.text text = v := Except.ok.inj h
    exact ⟨⟨text, rfl⟩, rfl⟩

theorem decoded_of_defaultValue (h : BatchStruct.defaultValue? p text = some v) :
    p.Decoded v ∧ v.isNew = true := by
  unfold BatchStruct.defaultValue? at h
  split at h
  · cases h
  · rename_i w hread
    split at h
    · rename_i hwrite
      obtain rfl := Option.some.inj h
      exact decoded_of_fromPlain hread hwrite
    · cases h

end Primitive

/-- A layout that schemas declare. The fields of a record have names of their own, none of them
that of a member that all records have, and nothing but a primitive has a default of its own. -/
inductive Layout.Schematic : Codec → Prop
  | primitive (p : Primitive) : Schematic (.primitive p)
  | list {element : Codec} (h : Schematic element) : Schematic (.list element)
  | map {key : Primitive} {value : Codec} (h : Schematic value) : Schematic (.map key value)
  | record {type : RecordType} (hn : type.fieldNames.Nodup)
    (hr : ∀ n ∈ type.fieldNames, n ∉ reservedNames) (hf : ∀ f ∈ type.fields, Schematic f.layout)
    (hd : ∀ f ∈ type.fields, ∀ v, f.default? = some v →
      ∃ p, f.layout = .primitive p ∧ p.Decoded v ∧ v.isNew = true) : Schematic (.record type)

/-- Whether all records in a value can be made from their fields by name. -/
def Value.isMakeable (v : Value) : Bool :=
  v.every fun
    | .record head _ => !head.type.fieldNames.contains selfName
    | _ => true

/-- The value has plain data. They mean it again if all records in it can be made, and nothing
otherwise. -/
def Layout.Regains (codec : Codec) (v : Value) : Prop :=
  ∃ d, codec.toPlain v = .ok d ∧
    codec.fromPlain d = if v.isMakeable then .ok v else .error (.fault .unsupported)

/-- Whether no record in a layout has a field with a name of the form that names of the language
have. -/
def Layout.isOrdinary (codec : Codec) : Bool :=
  codec.every fun
    | .record type => type.fieldNames.all fun n => !(Text.ofString "__").isPrefixOf n
    | _ => true

theorem Operation.name_mem_reservedNames :
    ∀ operation ∈ own, operation.name ∈ reservedNames := by decide

theorem Operation.mem_own_or_isPrefixOf_name (operation : Operation) :
    operation ∈ own ∨ (Text.ofString "__").isPrefixOf operation.name = true := by
  cases operation <;> decide

namespace RecordLayout

variable {type : RecordType}

theorem hides_eq_false (hr : ∀ n ∈ type.fieldNames, n ∉ reservedNames) {operation : Operation}
    (ho : operation ∈ Operation.own) : type.hides operation = false := by
  rw [hides, List.contains_eq_mem, decide_eq_false_iff_not]
  exact fun hm => hr _ hm (operation.name_mem_reservedNames ho)

theorem isOrdinary_iff : (Layout.record type).isOrdinary = true ↔
    (∀ n ∈ type.fieldNames, ¬ Text.ofString "__" <+: n) ∧
      ∀ f ∈ type.fields, f.layout.isOrdinary = true := by
  simp [Layout.isOrdinary, Layout.every, every_eq_true, ← List.isPrefixOf_iff_prefix]

theorem canMake_of_isInstantiable (h : type.isInstantiable = true) (given : List Text) :
    type.canMake given = true := by
  obtain ⟨hmade, hf⟩ := isInstantiable_iff.1 h
  rw [canMake, hmade, Bool.true_and, List.all_eq_true]
  intro f hm
  rcases hf f hm with h | h <;> simp [h]

theorem canMake_nil (type : RecordType) : type.canMake [] = type.isInstantiable := by
  rw [Bool.eq_iff_iff, isInstantiable_iff, canMake]
  simp

theorem canMake_fieldNames (h : type.isConstructible = true) :
    type.canMake type.fieldNames = true := by
  rw [canMake, h, Bool.true_and, List.all_eq_true]
  intro f hf
  have hn : f.name ∈ type.fieldNames := List.mem_map_of_mem hf
  simp [hn]

end RecordLayout

namespace Layout.Schematic

variable {codec : Codec}

theorem shows (h : codec.Schematic) (operations : List Operation)
    (ho : ∀ operation ∈ operations, operation ∈ Operation.own) :
    codec.shows operations = true := by
  induction h with
  | primitive p => rfl
  | list _ ih => exact ih
  | map _ ih => exact ih
  | record hn hr _ hd ih =>
    exact shows_record.2
      ⟨fun operation hm => RecordLayout.hides_eq_false hr (ho operation hm), ih⟩

theorem shows_of_isOrdinary (h : codec.Schematic) (ho : codec.isOrdinary = true)
    (operations : List Operation) : codec.shows operations = true := by
  induction h with
  | primitive p => rfl
  | list _ ih => exact ih ho
  | map _ ih => exact ih ho
  | record hn hr _ hd ih =>
    obtain ⟨hnames, hf⟩ := RecordLayout.isOrdinary_iff.1 ho
    refine shows_record.2 ⟨fun operation _ => ?_, fun f hm => ih f hm (hf f hm)⟩
    rcases operation.mem_own_or_isPrefixOf_name with hown | hspecial
    · exact RecordLayout.hides_eq_false hr hown
    · rw [RecordLayout.hides, List.contains_eq_mem, decide_eq_false_iff_not]
      exact fun hm => hnames _ hm (List.isPrefixOf_iff_prefix.1 hspecial)

theorem isInstantiable (h : codec.Schematic) (ho : codec.isOrdinary = true) :
    codec.isInstantiable = true :=
  isInstantiable_of_shows (fun _ hm => hm) (h.shows_of_isOrdinary ho Operation.ofMaking)

end Layout.Schematic

theorem RecordLayout.isMakeable_default (type : RecordType) : type.default.isMakeable =
    (!type.fieldNames.contains selfName && type.fields.all fun f => f.default.isMakeable) := by
  have hall : Value.everyOf (fun
      | .record head _ => !head.type.fieldNames.contains selfName
      | _ => true) (type.fields.map FieldLayout.default) =
      type.fields.all fun f => f.default.isMakeable := by
    rw [Bool.eq_iff_iff, Value.everyOf_eq_true, List.all_eq_true, List.forall_mem_map]
    rfl
  rw [default_eq, ← hall]
  rfl

namespace Layout

theorem regains_primitive {p : Primitive} {v : Value} (h : p.Decoded v) (hn : v.isNew = true) :
    (primitive p).Regains v := by
  obtain ⟨w, hw, hfresh⟩ := Primitive.fromPlain_of_decoded h
  obtain rfl : w = v := by
    rcases hfresh with rfl | rfl
    · rfl
    · exact Value.fresh_of_isNew hn
  obtain ⟨a, rfl, -⟩ := h.exists_atom
  exact ⟨.atom a, by rw [toPlain], hw⟩

end Layout

theorem fieldsFromDict_default {fields : List Field} {entries : List (Value × Value)}
    {data : Field → Value}
    (h : ∀ f ∈ fields, Value.lookupText f.name entries = some (data f) ∧
      f.layout.fromPlain (data f) =
        if f.default.isMakeable then .ok f.default else .error (.fault .unsupported)) :
    fieldsFromDict fields entries =
      if fields.all (fun f => f.default.isMakeable) then .ok (fields.map FieldLayout.default)
      else .error (.fault .unsupported) := by
  induction fields with
  | nil => rfl
  | cons f fields ih =>
    obtain ⟨⟨hlookup, hdata⟩, hrest⟩ := List.forall_mem_cons.1 h
    have hstep : fieldsFromDict (f :: fields) entries =
        (f.layout.fromPlain (data f)).bind fun v =>
          (fieldsFromDict fields entries).map (v :: ·) := by
      obtain ⟨name, layout, default?⟩ := f
      dsimp only at hlookup
      rw [fieldsFromDict, hlookup]
      dsimp only
      cases layout.fromPlain (data ⟨name, layout, default?⟩) <;> rfl
    rw [hstep, hdata, ih hrest, List.all_cons]
    cases f.default.isMakeable with
    | false => rfl
    | true => cases fields.all fun f => f.default.isMakeable <;> rfl

/-- The default of a record type has plain data, which mean it again if all records in it can be
made. -/
theorem RecordLayout.exists_fromDict_default {type : RecordType} (hn : type.fieldNames.Nodup)
    (hr : ∀ n ∈ type.fieldNames, n ∉ reservedNames) (hm : type.isConstructible = true)
    (hf : ∀ f ∈ type.fields, f.layout.Regains f.default) :
    ∃ es, (Layout.record type).toPlain type.default = .ok (.dict es) ∧
      type.fromDict (.dict es) =
        if type.default.isMakeable then .ok type.default else .error (.fault .unsupported) := by
  choose! data hto hfrom using hf
  have hfound : ∀ f ∈ type.fields, Value.lookupText f.name
      (type.fields.map fun f => (.text f.name, data f)) = some (data f) :=
    fun f hf => Value.lookupText_of_nodup hn hf
  have hknown :
      unknownKeys type.fieldNames (type.fields.map fun f => (.text f.name, data f)) = [] :=
    unknownKeys_of_names fun f hf => List.mem_map_of_mem hf
  have hgiven : (type.fieldNames.filter fun n => (Value.lookupText n
      (type.fields.map fun f => (.text f.name, data f))).isSome) = type.fieldNames := by
    rw [List.filter_eq_self, fieldNames, List.forall_mem_map]
    intro f hf
    rw [hfound f hf]
    rfl
  refine ⟨type.fields.map fun f => (.text f.name, data f), ?_, ?_⟩
  · have hshow : RecordHead.hides ({ type := type } : RecordHead Value) .toDict = false := by
      rw [RecordHead.hides, hides_eq_false hr (by decide)]
      rfl
    rw [default_eq, Layout.toPlain_record, if_neg (by rw [hshow]; decide),
      ← List.map_prod_left_eq_zip, List.map_map,
      collect_map_of_ok (g := fun f => (.text f.name, data f))]
    · rfl
    · intro f hf
      simp only [Function.comp_def, hto f hf]
      rfl
  · rw [fromDict_dict, hides_eq_false hr (by decide), hknown,
      fieldsFromDict_default fun f hf => ⟨hfound f hf, hfrom f hf⟩, isMakeable_default, default_eq]
    simp only [makeRecord, hgiven, canMake_fieldNames hm, List.isEmpty_nil, if_true,
      Bool.false_eq_true, if_false, Bool.not_true, Bool.or_false]
    cases type.fields.all fun f => f.default.isMakeable <;>
      cases type.fieldNames.contains selfName <;> rfl

namespace Layout

theorem Regains.field {f : Field} (h : f.layout.Regains f.layout.default)
    (hd : ∀ v, f.default? = some v →
      ∃ p, f.layout = .primitive p ∧ p.Decoded v ∧ v.isNew = true) :
    f.layout.Regains f.default := by
  obtain ⟨name, layout, default?⟩ := f
  cases default? with
  | none => exact h
  | some v =>
    obtain ⟨p, rfl, hv, hn⟩ := hd v rfl
    exact regains_primitive hv hn

/-- The default of a layout that schemas declare has plain data, which mean it again if all
records in it can be made. -/
theorem Schematic.regains_default {codec : Codec} (h : codec.Schematic)
    (ho : codec.isOrdinary = true) : codec.Regains codec.default := by
  induction h with
  | primitive p => exact regains_primitive p.decoded_default.1 p.decoded_default.2
  | list _ => exact ⟨.list [], by rw [default, toPlain_list]; rfl, rfl⟩
  | map _ => exact ⟨.dict [], by rw [default, toPlain_map]; rfl, rfl⟩
  | @record type hn hr hf hd ih =>
    have hshows := (Schematic.record hn hr hf hd).shows_of_isOrdinary ho Operation.ofPlain
    obtain ⟨hplain, -⟩ := shows_record.1 hshows
    obtain ⟨es, hto, hfrom⟩ := RecordLayout.exists_fromDict_default hn hr
      (RecordLayout.isConstructible_of_ofPlain hplain) fun f hm =>
        (ih f hm ((RecordLayout.isOrdinary_iff.1 ho).2 f hm)).field (hd f hm)
    have htest := RecordLayout.isTestable_of_ofPlain hplain
    exact ⟨.dict es, hto, by rw [fromPlain_record_dict htest, hfrom]; rfl⟩

end Layout

namespace RecordLayout

variable {type : RecordType}

/-- The default of a record type that schemas declare comes back from its plain data if all records
in it can be made. -/
theorem fromDict_default (h : (Layout.record type).Schematic)
    (ho : (Layout.record type).isOrdinary = true) :
    ∃ d, (Layout.record type).toPlain type.default = .ok d ∧
      type.fromDict d =
        if type.default.isMakeable then .ok type.default else .error (.fault .unsupported) := by
  have hmade : type.isInstantiable = true := h.isInstantiable ho
  cases h with
  | record hn hr hf hd =>
    obtain ⟨es, hto, hfrom⟩ :=
      exists_fromDict_default hn hr (isInstantiable_iff.1 hmade).1 fun f hm =>
        ((hf f hm).regains_default ((isOrdinary_iff.1 ho).2 f hm)).field (hd f hm)
    exact ⟨.dict es, hto, hfrom⟩

theorem make_nil (type : RecordType) : type.make [] =
    if type.isInstantiable then .ok type.default else .error (.fault .unsupported) := by
  simp only [make, List.map_nil, canMake_nil, default_eq]
  cases type.isInstantiable <;> rfl

theorem make_one (hi : type.isInstantiable = true) {name : Text} (hm : name ∈ type.fieldNames)
    (x : Value) :
    type.make [(name, x)] = if name = selfName then .error (.fault .unsupported)
      else .ok (.newRecord type
        (type.fields.map fun f => if f.name = name then x else f.default)) := by
  have hlookup : ∀ f : Field, ([(name, x)].lookup f.name).getD f.default =
      if f.name = name then x else f.default := by
    intro f
    rw [List.lookup_cons, List.lookup_nil]
    by_cases hf : f.name = name
    · rw [hf, beq_self_eq_true, if_pos rfl]
      rfl
    · rw [beq_false_of_ne hf, if_neg hf]
      rfl
  have hunknown : ([name].filter fun n => !type.fieldNames.contains n) = [] := by
    simpa using hm
  have hself : ([name].contains selfName = true) ↔ name = selfName := by
    simp [eq_comm]
  simp only [make, List.map_cons, List.map_nil, hunknown, List.reverse_singleton, hlookup,
    canMake_of_isInstantiable hi, Bool.not_true, Bool.or_false, hself]
  rfl

end RecordLayout

end RecordWire
