import RecordWire.Codec.Write
import RecordWire.Number.Numeral

/-!
Default values, and conversion between records and plain data: dictionaries by field name, lists,
and atoms. Conversion from plain data accepts numbers and booleans as text; what it leaves out keeps
its default.
-/

namespace RecordWire

def Primitive.default : Primitive → Value
  | int _ => .int 0
  | float => .float .zero
  | double => .float .zero
  | bool => .bool false
  | char => .text [0]
  | string => .text []

mutual

/-- The value that a layout has by itself. -/
def Layout.default : Codec → Value
  | .primitive p => p.default
  | .rgb565 => .tuple [.int 0, .int 0, .int 0]
  | .list _ => .list []
  | .map _ _ => .dict []
  | .record type => type.default

def RecordLayout.default : RecordType → Value
  | ⟨id, className, typeName, bases, fields⟩ =>
    .newRecord ⟨id, className, typeName, bases, fields⟩ (defaults fields)

def FieldLayout.default : Field → Value
  | ⟨_, layout, none⟩ => layout.default
  | ⟨_, _, some v⟩ => v

def defaults : List Field → List Value
  | [] => []
  | field :: fields => field.default :: defaults fields

end

theorem defaults_eq_map (fields : List Field) : defaults fields = fields.map FieldLayout.default := by
  induction fields with
  | nil => rfl
  | cons f fields ih => rw [defaults, ih, List.map_cons]

theorem RecordLayout.default_eq (type : RecordType) :
    type.default = .newRecord type (type.fields.map FieldLayout.default) := by
  obtain ⟨id, className, typeName, bases, fields⟩ := type
  rw [RecordLayout.default, defaults_eq_map]

/-- The plain data of a value with a layout. -/
def Layout.toPlain (codec : Codec) (v : Value) : Except WireError Value :=
  match codec with
  | .primitive _ => .ok v
  | .rgb565 => .ok v
  | .list element =>
    match _h : v.parts? with
    | none => .error (.fault .unsupported)
    | some parts =>
      (collect (parts.attach.map fun ⟨part, _⟩ => element.toPlain part)).map .list
  | .map _ value =>
    match _h : v.pairs with
    | .error e => .error e
    | .ok pairs =>
      (collect (pairs.attach.map fun ⟨e, _⟩ =>
        match value.toPlain e.2 with
        | .error err => .error err
        | .ok v => if e.1.isKey then .ok (e.1, v) else .error (.fault .unsupported))).map
          fun es => .dict (Value.ofPairs es)
  | .record _ =>
    match v with
    | .record head fields =>
      if head.hides .toDict then .error (.fault .unsupported)
      else
        (head.throughFields []
          (collect ((head.type.fields.zip fields.attach).map fun (field, ⟨v, _⟩) =>
            (field.layout.toPlain v).map fun v => (Value.text field.name, v)))).map .dict
    | _ => .error (.fault .noMember)
termination_by (v.depth, sizeOf codec)
decreasing_by
  · rename_i hp
    have := Value.depth_of_mem_parts _h hp
    simp only [Prod.lex_def, Layout.list.sizeOf_spec]
    omega
  · rename_i he
    have := (Value.depth_of_mem_pairs _h he).2
    simp only [Prod.lex_def, Layout.map.sizeOf_spec]
    omega
  · rename_i hv
    have := Value.depth_le_depths hv
    simp only [Prod.lex_def, Value.depth]
    omega

theorem Layout.toPlain_list (element : Codec) (items : List Value) :
    (Layout.list element).toPlain (.list items) =
      (collect (items.map element.toPlain)).map .list := by
  rw [Layout.toPlain]
  simp [Value.parts?]

theorem Layout.toPlain_map (key : Primitive) (value : Codec) (entries : List (Value × Value)) :
    (Layout.map key value).toPlain (.dict entries) =
      (collect (entries.map fun e =>
        match value.toPlain e.2 with
        | .error err => .error err
        | .ok v => if e.1.isKey then .ok (e.1, v) else .error (.fault .unsupported))).map
          fun es => .dict (Value.ofPairs es) := by
  rw [Layout.toPlain]
  simp [Value.pairs, List.map_attach_eq_pmap]

theorem Layout.toPlain_record (type : RecordType) (head : RecordHead Value)
    (values : List Value) :
    (Layout.record type).toPlain (.record head values) =
      if head.hides .toDict then .error (.fault .unsupported)
      else
        (head.throughFields []
          (collect ((head.type.fields.zip values).map fun p =>
            (p.1.layout.toPlain p.2).map fun v => (Value.text p.1.name, v)))).map .dict := by
  rw [Layout.toPlain, ← zip_attach fun (field : Field) v =>
    (field.layout.toPlain v).map fun v => (Value.text field.name, v)]

/-- The text of bytes that spell a number; other bytes spell none. -/
def numeralOfBytes (bs : Bytes) : Text :=
  bs.map fun b => if b < 0x80 then CodePoint.ofNat b.toNat else CodePoint.ofChar '?'

def numeral? : Value → Option Text
  | .atom (.text t) => some t
  | .atom (.bytes bs) => some (numeralOfBytes bs)
  | .atom (.byteArray bs) => some (numeralOfBytes bs)
  | _ => none

namespace Primitive

/-- The boolean that plain data means: a number, or one of the words for it in any case. -/
def boolFromPlain (v : Value) : Except WireError Value :=
  match v with
  | .atom (.text t) =>
    let word := Text.toLower (Text.trim t)
    if word = "true" || word = "1" then .ok (.bool true)
    else if word = "false" || word = "0" then .ok (.bool false)
    else .error (.invalid (.unreadableBool v))
  | v =>
    match v.toInt? with
    | some n => .ok (.bool (n ≠ 0))
    | none => .error (.invalid (.unreadableBool v))

def intFromPlain (kind : IntKind) (v : Value) : Except WireError Value :=
  match v with
  | .atom (.bool _) => .error (.invalid (.notInteger kind v.kind))
  | .atom (.int n) => .ok (.int n)
  | .atom (.float x _) =>
    match x.toInt? with
    | some n => .ok (.int n)
    | none => .error (.invalid (.notIntegral kind x))
  | v =>
    match (numeral? v).bind Numeral.readInt? with
    | some n => .ok (.int n)
    | none => .error (.invalid (.unreadableInteger kind v))

/-- The double precision number that plain data means, for a field of a kind. -/
def doubleFromPlain (kind : Primitive) (v : Value) : Except WireError Binary64 :=
  match v with
  | .atom (.bool _) => .error (.invalid (.notNumber kind v.kind))
  | .atom (.float x _) => .ok x
  | .atom (.int n) =>
    match Binary64.ofInt? n with
    | some x => .ok x
    | none => .error (.fault .tooLarge)
  | v =>
    match (numeral? v).bind Numeral.readFloat? with
    | some x => .ok x
    | none => .error (.invalid (.unreadableNumber kind v))

/-- The object that a number is, if it is told from others. -/
def objectOf : Value → Nat
  | .atom (.float _ object) => object
  | _ => 0

def fromPlain : Primitive → Value → Except WireError Value
  | int kind, v => intFromPlain kind v
  | double, v => (doubleFromPlain double v).map fun x => .atom (.float x (objectOf v))
  | float, v =>
    match doubleFromPlain float v with
    | .error e => .error e
    | .ok x =>
      if x.isNaN then .ok (.atom (.float x (objectOf v)))
      else match x.narrow? with
        | some y => .ok (.float y)
        | none => .error (.invalid (.tooLargeForSingle (.float x)))
  | bool, v => boolFromPlain v
  | char, v => .ok v
  | string, v =>
    match v with
    | .atom (.bytes bs) => .ok (.bytes bs)
    | .atom (.byteArray bs) => .ok (.bytes bs)
    | v => if v.isShowable then .ok (.text v.asText) else .error (.fault .badText)

end Primitive

/-- A name that cannot be given when a record is made, because it stands for the record itself. -/
def selfName : Text := "self"

def unknownKeys (names : List Text) (entries : List (Value × Value)) : List Value :=
  (entries.map (·.1)).filter fun
    | .atom (.text t) => !names.contains t
    | _ => true

/-- A record from its fields, of which those that are given by name may not have the name of the record
itself. -/
def makeRecord (type : RecordType) (given : List Text) (values : List Value) :
    Except WireError Value :=
  if given.contains selfName || !type.canMake given then .error (.fault .unsupported)
  else .ok (.newRecord type values)

/-- Whether a value is a record of a type, if that can be found out. That of a value of the very type
is known. -/
def RecordLayout.recognizes? (type : RecordType) (v : Value) : Option Bool :=
  match v with
  | .record head _ =>
    if head.type.id == type.id then some true
    else if type.isTestable then some (head.type.isKindOf type) else none
  | _ => if type.isTestable then some false else none

mutual

/-- The value with a layout that plain data means. -/
def Layout.fromPlain : Codec → Value → Except WireError Value
  | .primitive p, v => p.fromPlain v
  | .rgb565, v => .ok v
  | .list element, v =>
    match v with
    | .atom .none => .ok (.list [])
    | .list items => (collect (items.map element.fromPlain)).map .list
    | .tuple items => (collect (items.map element.fromPlain)).map .list
    | v => .error (.invalid (.notList (Layout.list element).name v.kind false))
  | .map key value, v =>
    match v with
    | .atom .none => .ok (.dict [])
    | v =>
      match v.pairs with
      | .error e => .error e
      | .ok pairs =>
        (collect (pairs.map fun e =>
          match key.fromPlain e.1, value.fromPlain e.2 with
          | .error err, _ => .error err
          | _, .error err => .error err
          | .ok k, .ok w => if k.isKey then .ok (k, w) else .error (.fault .unsupported))).map
            fun es => .dict (Value.ofPairs es)
  | .record type, v =>
    match type.recognizes? v with
    | none => .error (.fault .unsupported)
    | some true => .ok v
    | some false => type.fromDict (if v.truth then v else .dict [])

/-- The record that a dictionary by field names means, unless the operation is hidden. -/
def RecordLayout.fromDict : RecordType → Value → Except WireError Value
  | ⟨id, className, typeName, bases, fields⟩, v =>
    let type : RecordType := ⟨id, className, typeName, bases, fields⟩
    if type.hides .fromDict then .error (.fault .unsupported)
    else
      match v with
      | .dict entries =>
        let unknown := unknownKeys type.fieldNames entries
        if unknown.isEmpty then
          match fieldsFromDict fields entries with
          | .error e => .error e
          | .ok values =>
            makeRecord type
              (type.fieldNames.filter fun n => (Value.lookupText n entries).isSome) values
        else if unknown.all Value.isShowable then
          .error (.illegal (.unknownFields typeName (Text.sorted (unknown.map Value.asText))))
        else .error (.fault .badText)
      | v => .error (.illegal (.notMapping typeName v.kind))

/-- The values of fields that a dictionary means, defaults for those that it does not have. -/
def fieldsFromDict : List Field → List (Value × Value) → Except WireError (List Value)
  | [], _ => .ok []
  | ⟨name, layout, default?⟩ :: fields, entries =>
    match Value.lookupText name entries with
    | none => (fieldsFromDict fields entries).map (default?.getD layout.default :: ·)
    | some data =>
      match layout.fromPlain data with
      | .error e => .error e
      | .ok v => (fieldsFromDict fields entries).map (v :: ·)

end

theorem Layout.fromPlain_map (key : Primitive) (value : Codec) {v : Value} (h : v ≠ .none) :
    (Layout.map key value).fromPlain v =
      match v.pairs with
      | .error e => .error e
      | .ok pairs =>
        (collect (pairs.map fun e =>
          match key.fromPlain e.1, value.fromPlain e.2 with
          | .error err, _ => .error err
          | _, .error err => .error err
          | .ok k, .ok w => if k.isKey then .ok (k, w) else .error (.fault .unsupported))).map
            fun es => .dict (Value.ofPairs es) := by
  rw [Layout.fromPlain]
  exact h

theorem Layout.fromPlain_map_of_pairs (key : Primitive) (value : Codec) {v : Value}
    {pairs : List (Value × Value)} (h : v.pairs = .ok pairs) :
    (Layout.map key value).fromPlain v =
      (collect (pairs.map fun e =>
        match key.fromPlain e.1, value.fromPlain e.2 with
        | .error err, _ => .error err
        | _, .error err => .error err
        | .ok k, .ok w => if k.isKey then .ok (k, w) else .error (.fault .unsupported))).map
          fun es => .dict (Value.ofPairs es) := by
  rw [Layout.fromPlain_map key value, h]
  rintro rfl
  cases h

theorem RecordLayout.fromDict_dict (type : RecordType) (entries : List (Value × Value)) :
    type.fromDict (.dict entries) =
      if type.hides .fromDict then .error (.fault .unsupported)
      else if (unknownKeys type.fieldNames entries).isEmpty then
        match fieldsFromDict type.fields entries with
        | .error e => .error e
        | .ok values =>
          makeRecord type
            (type.fieldNames.filter fun n => (Value.lookupText n entries).isSome) values
      else if (unknownKeys type.fieldNames entries).all Value.isShowable then
        .error (.illegal (.unknownFields type.typeName
          (Text.sorted ((unknownKeys type.fieldNames entries).map Value.asText))))
      else .error (.fault .badText) := by
  cases type
  rfl

theorem RecordLayout.fromDict_of_ne (type : RecordType) {v : Value}
    (h : ∀ entries, v ≠ .dict entries) :
    type.fromDict v = if type.hides .fromDict then .error (.fault .unsupported)
      else .error (.illegal (.notMapping type.typeName v.kind)) := by
  cases type
  rw [RecordLayout.fromDict]
  exact h

theorem RecordLayout.fromDict_of_hides {type : RecordType} (h : type.hides .fromDict = true)
    (v : Value) : type.fromDict v = .error (.fault .unsupported) := by
  by_cases hv : ∃ entries, v = .dict entries
  · obtain ⟨entries, rfl⟩ := hv
    rw [fromDict_dict, if_pos h]
  · rw [fromDict_of_ne type (not_exists.1 hv), if_pos h]

theorem RecordLayout.recognizes?_of_ne {type : RecordType} {v : Value}
    (h : ∀ head values, v ≠ .record head values) :
    type.recognizes? v = if type.isTestable then some false else none := by
  rw [recognizes?]
  exact h

theorem RecordLayout.exists_of_recognizes? {type : RecordType} {v : Value}
    (h : type.recognizes? v = some true) :
    ∃ head values, v = .record head values ∧ head.type.isKindOf type = true := by
  unfold recognizes? at h
  split at h
  · refine ⟨_, _, rfl, ?_⟩
    split at h
    · rename_i hid
      simp [isKindOf, hid]
    · split at h
      · exact Option.some.inj h
      · cases h
  · split at h <;> cases h

theorem RecordLayout.isTestable_of_recognizes? {type : RecordType} {v : Value}
    (h : type.recognizes? v = none) : type.isTestable = false := by
  unfold recognizes? at h
  split at h
  · split at h
    · cases h
    · split at h
      · cases h
      · exact Bool.not_eq_true _ ▸ ‹_›
  · split at h
    · cases h
    · exact Bool.not_eq_true _ ▸ ‹_›

theorem Layout.fromPlain_record (type : RecordType) (v : Value) :
    (Layout.record type).fromPlain v =
      match type.recognizes? v with
      | none => .error (.fault .unsupported)
      | some true => .ok v
      | some false => type.fromDict (if v.truth then v else .dict []) := by
  rw [Layout.fromPlain]

theorem Layout.fromPlain_record_of_ne {type : RecordType} (ht : type.isTestable = true) {v : Value}
    (h : ∀ head values, v ≠ .record head values) :
    (Layout.record type).fromPlain v = type.fromDict (if v.truth then v else .dict []) := by
  rw [fromPlain_record, RecordLayout.recognizes?_of_ne h, if_pos ht]

theorem Layout.fromPlain_record_dict {type : RecordType} (ht : type.isTestable = true)
    (entries : List (Value × Value)) :
    (Layout.record type).fromPlain (.dict entries) = type.fromDict (.dict entries) := by
  rw [fromPlain_record_of_ne ht (by simp)]
  cases entries <;> rfl

/-- A new record with some fields given by name. The last value counts for a name given twice. -/
def RecordLayout.make (type : RecordType) (given : List (Text × Value)) :
    Except WireError Value :=
  let names := given.map (·.1)
  let unknown := (names.filter fun n => !type.fieldNames.contains n).eraseDups
  if names.contains selfName || !type.canMake names then .error (.fault .unsupported)
  else if unknown.isEmpty then
    .ok (.newRecord type (type.fields.map fun f => (given.reverse.lookup f.name).getD f.default))
  else .error (.fault (.unexpectedFields type.className (Text.sorted unknown)))

end RecordWire
