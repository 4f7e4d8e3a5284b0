import RecordWire.Codec.Plain
import RecordWire.Proofs.Codec.Refusal

/-!
Errors of making records from plain data. Data that do not fit are refused as an invalid value or an
illegal argument, unless one of the operations on them fails by itself: making a number of an integer,
putting a value into words, taking an entry apart, looking up a key, or calling the record type. The
induction is over the layout; data are followed to the slots that they are given for.
-/

namespace RecordWire

/-- Making a value from plain data goes on to a part of the data, with the layout of that part. -/
inductive Layout.Descends : Codec → Value → Codec → Value → Prop
  | item {element : Codec} {v : Value} {items : List Value} {x : Value}
    (hv : v = .list items ∨ v = .tuple items) (hx : x ∈ items) : Descends (.list element) v element x
  | key {key : Primitive} {value : Codec} {v : Value} {pairs : List (Value × Value)}
    {e : Value × Value} (hv : v.pairs = .ok pairs) (he : e ∈ pairs) :
    Descends (.map key value) v (.primitive key) e.1
  | value {key : Primitive} {value : Codec} {v : Value} {pairs : List (Value × Value)}
    {e : Value × Value} (hv : v.pairs = .ok pairs) (he : e ∈ pairs) :
    Descends (.map key value) v value e.2
  | field {type : RecordType} {entries : List (Value × Value)} {f : Field} {data : Value}
    (hf : f ∈ type.fields) (hd : Value.lookupText f.name entries = some data) :
    Descends (.record type) (.dict entries) f.layout data

/-- Making a value from plain data comes to data for another layout. -/
inductive Layout.Finds : Codec → Value → Codec → Value → Prop
  | self (codec : Codec) (v : Value) : Finds codec v codec v
  | step {codec c d : Codec} {v w x : Value} (h : codec.Descends v c w) (rest : c.Finds w d x) :
    Finds codec v d x

/-- Why making a value from plain data fails without the data being refused. -/
inductive Layout.PlainEscapes : Codec → Value → WireError → Prop
  /-- An integer that is too large for a number. -/
  | number {p : Primitive} {n : Int} (hp : p = .float ∨ p = .double)
    (h : Binary64.ofInt? n = none) : PlainEscapes (.primitive p) (.int n) (.fault .tooLarge)
  /-- A value that has no words. -/
  | text {v : Value} (h : v.isShowable = false) :
    PlainEscapes (.primitive .string) v (.fault .badText)
  /-- A dictionary of two entries in the place of a pair. -/
  | entry {key : Primitive} {value : Codec} {v : Value} {parts : List Value}
    {entries : List (Value × Value)} (hv : v.parts? = some parts) (hp : .dict entries ∈ parts)
    (hl : entries.length = 2)
    (h : (Value.dict entries).at? 0 = some none ∨ (Value.dict entries).at? 1 = some none) :
    PlainEscapes (.map key value) v (.fault .noEntry)
  /-- A key that no dictionary takes. Only characters are taken as they come. -/
  | key {value : Codec} {v : Value} {pairs : List (Value × Value)} {e : Value × Value}
    (hv : v.pairs = .ok pairs) (he : e ∈ pairs) (h : e.1.isKey = false) :
    PlainEscapes (.map .char value) v (.fault .unsupported)
  /-- A record type that a field hides the operation from. -/
  | hidden {type : RecordType} {v : Value} (h : type.hides .fromDict = true) :
    PlainEscapes (.record type) v (.fault .unsupported)
  /-- A record type that keeps from being known whether something is a record of it. -/
  | untestable {type : RecordType} {v : Value} (h : type.isTestable = false) :
    PlainEscapes (.record type) v (.fault .unsupported)
  /-- A record type of which no record can be made from the data, or from nothing. -/
  | unmade {type : RecordType} {v : Value} {entries : List (Value × Value)}
    (hv : v = .dict entries ∨ v.truth = false ∧ entries = [])
    (h : type.canMake
      (type.fieldNames.filter fun n => (Value.lookupText n entries).isSome) = false) :
    PlainEscapes (.record type) v (.fault .unsupported)
  /-- Data for a field with the name of the record itself. -/
  | self {type : RecordType} {entries : List (Value × Value)} (h : selfName ∈ type.fieldNames)
    (hd : (Value.lookupText selfName entries).isSome = true) :
    PlainEscapes (.record type) (.dict entries) (.fault .unsupported)
  /-- An unknown name that has no words. -/
  | name {type : RecordType} {entries : List (Value × Value)} {k : Value}
    (hk : k ∈ unknownKeys type.fieldNames entries) (h : k.isShowable = false) :
    PlainEscapes (.record type) (.dict entries) (.fault .badText)

/-- What can be given for a record of a type: a dictionary, an instance, or anything that is empty. -/
def Value.StandsFor (v : Value) (type : RecordType) : Prop :=
  v.truth = false ∨ (∃ entries, v = .dict entries) ∨
    ∃ head values, v = .record head values ∧ head.type.isKindOf type = true

/-- The error is that of data that are refused. An invalid value may be one that has no words. -/
def WireError.IsRefusal (e : WireError) : Prop :=
  (∃ why, e = .invalid why) ∨ e.HasClass .illegalArgument

theorem Layout.PlainEscapes.exists_fault {codec : Codec} {v : Value} {e : WireError}
    (h : codec.PlainEscapes v e) : ∃ why, e = .fault why := by
  cases h <;> exact ⟨_, rfl⟩

variable {v w : Value} {e : WireError}

namespace Primitive

theorem boolFromPlain_cases (v : Value) : (∃ b, boolFromPlain v = .ok (.bool b)) ∨
    boolFromPlain v = .error (.invalid (.unreadableBool v)) := by
  unfold boolFromPlain
  split
  · dsimp only
    split
    · exact .inl ⟨_, rfl⟩
    · split
      · exact .inl ⟨_, rfl⟩
      · exact .inr rfl
  · split
    · exact .inl ⟨_, rfl⟩
    · exact .inr rfl

theorem error_of_intFromPlain {kind : IntKind} (h : intFromPlain kind v = .error e) :
    e.IsRefusal := by
  revert h
  fun_cases intFromPlain kind v with
  | case1 | case4 | case6 =>
    rintro ⟨⟩
    exact .inl ⟨_, rfl⟩
  | _ => rintro ⟨⟩

theorem fromPlain_double_of_large {n : Int} (hn : Binary64.ofInt? n = none) :
    double.fromPlain (.int n) = .error (.fault .tooLarge) := by
  have h : doubleFromPlain double (.int n) = .error (.fault .tooLarge) := by
    generalize hv : Value.int n = v
    fun_cases doubleFromPlain double v with
    | case3 m x hm =>
      cases hv
      cases hn.symm.trans hm
    | case4 => rfl
    | case5 _ _ _ hne | case6 _ _ _ hne => exact (hne n hv.symm).elim
    | _ => cases hv
  rw [fromPlain, h]
  rfl

theorem error_of_doubleFromPlain {kind : Primitive} (h : doubleFromPlain kind v = .error e) :
    e.IsRefusal ∨ e = .fault .tooLarge ∧ ∃ n : Int, v = .int n ∧ Binary64.ofInt? n = none := by
  revert h
  fun_cases doubleFromPlain kind v with
  | case1 | case6 =>
    rintro ⟨⟩
    exact .inl (.inl ⟨_, rfl⟩)
  | case4 n hn =>
    rintro ⟨⟩
    exact .inr ⟨rfl, n, rfl, hn⟩
  | _ => rintro ⟨⟩

/-- Making a primitive fails on data that do not fit, or on a number or text that cannot be made. -/
theorem error_of_fromPlain {p : Primitive} (h : p.fromPlain v = .error e) :
    e.IsRefusal ∨ (Layout.primitive p).PlainEscapes v e := by
  have hnumber : ∀ p d, p = float ∨ p = double → doubleFromPlain p v = .error d →
      d.IsRefusal ∨ (Layout.primitive p).PlainEscapes v d := by
    intro p d hp hd
    refine (error_of_doubleFromPlain hd).imp_right ?_
    rintro ⟨rfl, n, rfl, hn⟩
    exact .number hp hn
  revert h
  fun_cases fromPlain p v with
  | case1 kind => exact fun h => .inl (error_of_intFromPlain h)
  | case2 =>
    cases hd : doubleFromPlain double v with
    | error d =>
      rintro ⟨⟩
      exact hnumber _ _ (.inr rfl) hd
    | ok x => rintro ⟨⟩
  | case3 v d hd =>
    rintro ⟨⟩
    exact hnumber _ _ (.inl rfl) hd
  | case6 =>
    rintro ⟨⟩
    exact .inl (.inl ⟨_, rfl⟩)
  | case7 v =>
    intro h
    rcases boolFromPlain_cases v with ⟨b, hb⟩ | hb
    · cases hb.symm.trans h
    · cases hb.symm.trans h
      exact .inl (.inl ⟨_, rfl⟩)
  | case12 v _ _ hs =>
    rintro ⟨⟩
    exact .inr (.text (Bool.not_eq_true _ ▸ hs))
  | _ => rintro ⟨⟩

theorem isKey_of_intFromPlain {kind : IntKind} (h : intFromPlain kind v = .ok w) :
    w.isKey = true := by
  revert h
  fun_cases intFromPlain kind v with
  | case2 | case3 | case5 =>
    rintro ⟨⟩
    rfl
  | _ => rintro ⟨⟩

/-- Only a character can come out of plain data as something that is no key: it is taken as it is. -/
theorem eq_char_of_not_isKey {p : Primitive} (h : p.fromPlain v = .ok w) (hw : w.isKey = false) :
    p = char ∧ w = v := by
  revert h
  fun_cases fromPlain p v with
  | case1 kind => exact fun h => absurd (isKey_of_intFromPlain h) (by simp [hw])
  | case2 =>
    intro h
    obtain ⟨x, -, rfl⟩ := map_eq_ok_iff.1 h
    cases hw
  | case7 v =>
    intro h
    rcases boolFromPlain_cases v with ⟨b, hb⟩ | hb
    · cases hb.symm.trans h
      cases hw
    · cases hb.symm.trans h
  | case8 =>
    rintro ⟨⟩
    exact ⟨rfl, rfl⟩
  | case4 | case5 | case9 | case10 | case11 =>
    rintro ⟨⟩
    cases hw
  | _ => rintro ⟨⟩

end Primitive

section

variable {fields : List Field} {entries : List (Value × Value)} {values : List Value}

theorem error_of_fieldsFromDict (h : fieldsFromDict fields entries = .error e) :
    ∃ f ∈ fields, ∃ data, Value.lookupText f.name entries = some data ∧
      f.layout.fromPlain data = .error e := by
  induction fields with
  | nil => cases h
  | cons f fields ih =>
    obtain ⟨name, layout, default?⟩ := f
    have hrest : fieldsFromDict fields entries = .error e →
        ∃ f ∈ (⟨name, layout, default?⟩ : Field) :: fields, ∃ data,
          Value.lookupText f.name entries = some data ∧ f.layout.fromPlain data = .error e := by
      intro h
      obtain ⟨f, hf, hdata⟩ := ih h
      exact ⟨f, List.mem_cons_of_mem _ hf, hdata⟩
    rw [fieldsFromDict] at h
    split at h
    · exact hrest (map_eq_error_iff.1 h)
    · rename_i data hdata
      split at h
      · rename_i hd
        cases h
        exact ⟨_, List.mem_cons_self, data, hdata, hd⟩
      · exact hrest (map_eq_error_iff.1 h)

theorem ok_of_fieldsFromDict (h : fieldsFromDict fields entries = .ok values) :
    values.length = fields.length ∧ ∀ f ∈ fields, ∀ data,
      Value.lookupText f.name entries = some data → ∃ y, f.layout.fromPlain data = .ok y := by
  induction fields generalizing values with
  | nil =>
    cases h
    simp
  | cons f fields ih =>
    obtain ⟨name, layout, default?⟩ := f
    rw [fieldsFromDict] at h
    split at h
    · rename_i hnone
      obtain ⟨vs, hvs, rfl⟩ := map_eq_ok_iff.1 h
      obtain ⟨hl, hfs⟩ := ih hvs
      refine ⟨congrArg Nat.succ hl, List.forall_mem_cons.2 ⟨fun data hd => ?_, hfs⟩⟩
      cases hnone.symm.trans hd
    · rename_i data hdata
      split at h
      · cases h
      · rename_i y hy
        obtain ⟨vs, hvs, rfl⟩ := map_eq_ok_iff.1 h
        obtain ⟨hl, hfs⟩ := ih hvs
        refine ⟨congrArg Nat.succ hl, List.forall_mem_cons.2 ⟨fun data' hd => ?_, hfs⟩⟩
        cases hdata.symm.trans hd
        exact ⟨y, hy⟩

end

theorem RecordLayout.error_of_fromDict {type : RecordType} (h : type.fromDict v = .error e) :
    e.IsRefusal ∨ (type.hides .fromDict = true ∧ e = .fault .unsupported) ∨
      ∃ entries, v = .dict entries ∧ ((Layout.record type).PlainEscapes v e ∨
        ∃ f ∈ type.fields, ∃ data, Value.lookupText f.name entries = some data ∧
          f.layout.fromPlain data = .error e) := by
  by_cases hh : type.hides .fromDict = true
  · rw [fromDict_of_hides hh] at h
    exact .inr (.inl ⟨hh, (Except.error.inj h).symm⟩)
  by_cases hv : ∃ entries, v = .dict entries
  · obtain ⟨entries, rfl⟩ := hv
    rw [fromDict_dict, if_neg hh] at h
    split at h
    · split at h
      · rename_i hfields
        cases h
        exact .inr (.inr ⟨entries, rfl, .inr (error_of_fieldsFromDict hfields)⟩)
      · unfold makeRecord at h
        split at h
        · rename_i hmake
          cases h
          rw [Bool.or_eq_true, Bool.not_eq_true', List.contains_iff_mem, List.mem_filter] at hmake
          rcases hmake with ⟨hself, hgiven⟩ | hmake
          · exact .inr (.inr ⟨entries, rfl, .inl (.self hself hgiven)⟩)
          · exact .inr (.inr ⟨entries, rfl, .inl (.unmade (.inl rfl) hmake)⟩)
        · cases h
    · split at h
      · cases h
        exact .inl (.inr ⟨_, _, _, rfl⟩)
      · rename_i hshow
        cases h
        rw [List.all_eq_true] at hshow
        push Not at hshow
        obtain ⟨k, hk, hshow⟩ := hshow
        exact .inr (.inr ⟨entries, rfl, .inl (.name hk (Bool.not_eq_true _ ▸ hshow))⟩)
  · rw [fromDict_of_ne type (not_exists.1 hv), if_neg hh] at h
    cases h
    exact .inl (.inr ⟨_, _, _, rfl⟩)

theorem RecordLayout.ok_of_fromDict {type : RecordType} (h : type.fromDict v = .ok w) :
    ∃ entries values, v = .dict entries ∧ w = .newRecord type values ∧
      fieldsFromDict type.fields entries = .ok values := by
  by_cases hv : ∃ entries, v = .dict entries
  · obtain ⟨entries, rfl⟩ := hv
    rw [fromDict_dict] at h
    split at h
    · cases h
    · split at h
      · split at h
        · cases h
        · rename_i values hfields
          unfold makeRecord at h
          split at h
          · cases h
          · cases h
            exact ⟨entries, values, rfl, rfl, hfields⟩
      · split at h <;> cases h
  · rw [fromDict_of_ne type (not_exists.1 hv)] at h
    split at h <;> cases h

namespace Layout

variable {codec c : Codec}

theorem error_of_fromPlain_map {key : Primitive} {value : Codec}
    (h : (map key value).fromPlain v = .error e) :
    e.IsRefusal ∨ (map key value).PlainEscapes v e ∨
      ∃ c w, (map key value).Descends v c w ∧ c.fromPlain w = .error e := by
  have hne : v ≠ .none := by
    rintro rfl
    cases h
  rw [fromPlain_map key value hne] at h
  split at h
  · rename_i hv
    cases h
    rcases Value.error_of_pairs hv with hinvalid | ⟨rfl, parts, entries, hparts, hp, hl, hm⟩
    · exact .inl (.inl hinvalid)
    · exact .inr (.inl (.entry hparts hp hl hm))
  · rename_i pairs hv
    obtain ⟨p, hp, hentry⟩ := exists_error_of_collect (map_eq_error_iff.1 h)
    split at hentry
    · rename_i hk
      cases hentry
      exact .inr (.inr ⟨_, _, .key hv hp, hk⟩)
    · rename_i hx _
      cases hentry
      exact .inr (.inr ⟨_, _, .value hv hp, hx⟩)
    · rename_i k x hk hx
      split at hentry
      · cases hentry
      · rename_i hkey
        cases hentry
        rw [Bool.not_eq_true] at hkey
        obtain ⟨rfl, rfl⟩ := Primitive.eq_char_of_not_isKey hk hkey
        exact .inr (.inl (.key hv hp hkey))

theorem ok_of_fromPlain_record {type : RecordType} (h : (record type).fromPlain v = .ok w) :
    (∃ head values, v = .record head values ∧ head.type.isKindOf type = true) ∨
      type.fromDict (if v.truth then v else .dict []) = .ok w := by
  rw [fromPlain_record] at h
  split at h
  · cases h
  · rename_i hk
    exact .inl (RecordLayout.exists_of_recognizes? hk)
  · exact .inr h

theorem exists_fields_of_fromPlain {type : RecordType} {entries : List (Value × Value)}
    (h : (record type).fromPlain (.dict entries) = .ok w) :
    ∃ values, fieldsFromDict type.fields entries = .ok values := by
  rcases ok_of_fromPlain_record h with ⟨head, values, hv, -⟩ | h
  · cases hv
  · have hdict : (if (Value.dict entries).truth then Value.dict entries else .dict []) =
        .dict entries := by cases entries <;> rfl
    rw [hdict] at h
    obtain ⟨_, values, hv, -, hfields⟩ := RecordLayout.ok_of_fromDict h
    cases hv
    exact ⟨values, hfields⟩

theorem Descends.exists_fromPlain (hd : codec.Descends v c w) {y : Value}
    (h : codec.fromPlain v = .ok y) : ∃ z, c.fromPlain w = .ok z := by
  have hentry : ∀ {key : Primitive} {value : Codec} {pairs : List (Value × Value)}
      {p : Value × Value}, v.pairs = .ok pairs → p ∈ pairs →
      (map key value).fromPlain v = .ok y →
        (∃ z, key.fromPlain p.1 = .ok z) ∧ ∃ z, value.fromPlain p.2 = .ok z := by
    intro key value pairs p hv hp h
    rw [fromPlain_map_of_pairs key value hv] at h
    obtain ⟨es, hes, -⟩ := map_eq_ok_iff.1 h
    obtain ⟨q, hq⟩ := exists_ok_of_collect hes hp
    split at hq
    · cases hq
    · cases hq
    · rename_i k x hk hx
      exact ⟨⟨k, hk⟩, x, hx⟩
  cases hd with
  | @item _ _ items _ hv hx =>
    obtain ⟨ys, hys, -⟩ : ∃ ys, collect (items.map c.fromPlain) = .ok ys ∧ .list ys = y := by
      rcases hv with rfl | rfl <;> exact map_eq_ok_iff.1 h
    exact exists_ok_of_collect hys hx
  | key hv he => exact (hentry hv he h).1
  | value hv he => exact (hentry hv he h).2
  | field hf hdata =>
    obtain ⟨values, hfields⟩ := exists_fields_of_fromPlain h
    exact (ok_of_fieldsFromDict hfields).2 _ hf _ hdata

theorem Finds.exists_fromPlain {d : Codec} {x : Value} (hf : codec.Finds v d x) {y : Value}
    (h : codec.fromPlain v = .ok y) : ∃ z, d.fromPlain x = .ok z := by
  induction hf generalizing y with
  | self => exact ⟨y, h⟩
  | step hd _ ih =>
    obtain ⟨z, hz⟩ := hd.exists_fromPlain h
    exact ih hz

theorem standsFor_of_fromPlain {type : RecordType}
    (h : (Layout.record type).fromPlain v = .ok w) : v.StandsFor type := by
  rcases ok_of_fromPlain_record h with hinstance | h
  · exact .inr (.inr hinstance)
  · split at h
    · obtain ⟨entries, values, hv, -⟩ := RecordLayout.ok_of_fromDict h
      exact .inr (.inl ⟨entries, hv⟩)
    · rename_i ht
      exact .inl (Bool.not_eq_true _ ▸ ht)

theorem error_of_fromPlain_list {element : Codec} (h : (list element).fromPlain v = .error e) :
    e.IsRefusal ∨ ∃ c w, (list element).Descends v c w ∧ c.fromPlain w = .error e := by
  have hitems : ∀ items, v = .list items ∨ v = .tuple items →
      (collect (items.map element.fromPlain)).map Value.list = .error e →
        ∃ c w, (list element).Descends v c w ∧ c.fromPlain w = .error e := by
    intro items hv h
    obtain ⟨x, hx, he⟩ := exists_error_of_collect (map_eq_error_iff.1 h)
    exact ⟨element, x, .item hv hx, he⟩
  unfold fromPlain at h
  split at h
  · cases h
  · exact .inr (hitems _ (.inl rfl) h)
  · exact .inr (hitems _ (.inr rfl) h)
  · cases h
    exact .inl (.inl ⟨_, rfl⟩)

/-- A record that is no instance goes the way of other data; what is empty stands for no fields. -/
theorem error_of_fromPlain_record {type : RecordType}
    (h : (record type).fromPlain v = .error e) :
    e.IsRefusal ∨ (record type).PlainEscapes v e ∨
      ∃ c w, (record type).Descends v c w ∧ c.fromPlain w = .error e := by
  have hdict : type.fromDict v = .error e → e.IsRefusal ∨ (record type).PlainEscapes v e ∨
      ∃ c w, (record type).Descends v c w ∧ c.fromPlain w = .error e := by
    intro h
    rcases RecordLayout.error_of_fromDict h with href | ⟨hh, rfl⟩ | ⟨entries, rfl, he | hf⟩
    · exact .inl href
    · exact .inr (.inl (.hidden hh))
    · exact .inr (.inl he)
    · obtain ⟨f, hf, data, hd, he⟩ := hf
      exact .inr (.inr ⟨f.layout, data, .field hf hd, he⟩)
  have hempty : v.truth = false → type.fromDict (.dict []) = .error e →
      e.IsRefusal ∨ (record type).PlainEscapes v e := by
    intro ht h
    rcases RecordLayout.error_of_fromDict h with href | ⟨hh, rfl⟩ | ⟨entries, hv, he | hf⟩
    · exact .inl href
    · exact .inr (.hidden hh)
    · cases he with
      | hidden hh => exact .inr (.hidden hh)
      | untestable hh => exact .inr (.untestable hh)
      | unmade hv' hmake =>
        refine .inr (.unmade (.inr ⟨ht, ?_⟩) hmake)
        rcases hv' with h | ⟨-, h⟩
        · exact (Value.dict.inj h).symm
        · exact h
      | self _ hd => cases hd
      | name hk => cases hk
    · obtain ⟨f, -, data, hd, -⟩ := hf
      cases hv
      cases hd
  rw [fromPlain_record] at h
  split at h
  · rename_i hunknown
    cases h
    exact .inr (.inl (.untestable (RecordLayout.isTestable_of_recognizes? hunknown)))
  · cases h
  · split at h
    · exact hdict h
    · rename_i ht
      exact (hempty (Bool.not_eq_true _ ▸ ht) h).imp_right .inl

/-- Making a value fails on data that are refused, on a fault of its own, or in one of its parts. -/
theorem error_of_slot (h : codec.fromPlain v = .error e) :
    e.IsRefusal ∨ codec.PlainEscapes v e ∨
      ∃ c w, codec.Descends v c w ∧ c.fromPlain w = .error e := by
  cases codec with
  | primitive p => exact (Primitive.error_of_fromPlain h).imp_right .inl
  | rgb565 => cases h
  | list element => exact (error_of_fromPlain_list h).imp_right .inr
  | map key value => exact error_of_fromPlain_map h
  | record type => exact error_of_fromPlain_record h

theorem Finds.record_cases {type : RecordType} {entries : List (Value × Value)} {x : Value}
    (h : (record type).Finds (.dict entries) c x) :
    (c = .record type ∧ x = .dict entries) ∨ ∃ f ∈ type.fields, ∃ data,
      Value.lookupText f.name entries = some data ∧ f.layout.Finds data c x := by
  cases h with
  | self => exact .inl ⟨rfl, rfl⟩
  | step hd rest =>
    cases hd with
    | field hf hdata => exact .inr ⟨_, hf, _, hdata, rest⟩

theorem Descends.sizeOf_lt (h : codec.Descends v c w) : sizeOf c < sizeOf codec := by
  cases h with
  | item =>
    simp only [list.sizeOf_spec]
    omega
  | @key _ value =>
    have := sizeOf_pos value
    simp only [map.sizeOf_spec, primitive.sizeOf_spec]
    omega
  | value =>
    simp only [map.sizeOf_spec]
    omega
  | @field type _ f _ hf =>
    obtain ⟨id, className, typeName, bases, fields⟩ := type
    obtain ⟨name, layout, default?⟩ := f
    have := List.sizeOf_lt_of_mem hf
    simp only [FieldLayout.mk.sizeOf_spec, record.sizeOf_spec, RecordLayout.mk.sizeOf_spec] at *
    omega

/-- Making a value from plain data fails on data that are refused, or else as a slot does that the
data are given for. -/
theorem error_of_fromPlain (codec : Codec) (v : Value) (e : WireError)
    (h : codec.fromPlain v = .error e) : e.IsRefusal ∨
      ∃ c w, codec.Finds v c w ∧ c.fromPlain w = .error e ∧ c.PlainEscapes w e := by
  rcases error_of_slot h with href | he | ⟨c, w, hd, hw⟩
  · exact .inl href
  · exact .inr ⟨codec, v, .self codec v, h, he⟩
  · refine (error_of_fromPlain c w e hw).imp_right ?_
    rintro ⟨d, x, hf, hx⟩
    exact ⟨d, x, .step hd hf, hx⟩
termination_by sizeOf codec
decreasing_by exact hd.sizeOf_lt

end Layout

theorem WireError.not_hasClass_of_not_isShowable {why : InvalidValue} {x : Value} {c : ErrorClass}
    (hx : x ∈ why.shownValues) (hs : x.isShowable = false) : ¬ (invalid why).HasClass c := by
  rintro ⟨message, hasCause, details, h⟩
  have hshow : (invalid why).isShowable = false := by
    rw [← Bool.not_eq_true]
    intro hall
    rw [List.all_eq_true.1 hall x hx] at hs
    cases hs
  rw [Report.ofWire, hshow] at h
  cases h

/-- From plain data either a record of the type is made, of a dictionary in which all data for record
fields, at any depth, are dictionaries, instances, or empty, or there is an error. The error is not
reported as an invalid value or an illegal argument exactly if the message about the data cannot be put
into words, if a field hides the operation, or if it is the error of a slot that the data are given for,
in which they are not refused but an operation on them fails. Of a type that keeps from being known what
is a record of it, the data are no slot. -/
theorem RecordLayout.fromDict_outcome (type : RecordType) (v : Value) :
    (∃ entries values, v = .dict entries ∧ values.length = type.fields.length ∧
      type.fromDict v = .ok (.newRecord type values) ∧
      ∀ nested x, (Layout.record type).Finds v (.record nested) x → x.StandsFor nested) ∨
    ∃ e, type.fromDict v = .error e ∧
      (¬ (e.HasClass .invalidValue ∨ e.HasClass .illegalArgument) ↔
        (∃ why, e = .invalid why ∧ ∃ x ∈ why.shownValues, x.isShowable = false) ∨
        (type.hides .fromDict = true ∧ e = .fault .unsupported) ∨
        (type.isTestable = false ∧ (Layout.record type).PlainEscapes v e) ∨
        ∃ c x, (Layout.record type).Finds v c x ∧ c.fromPlain x = .error e ∧
          c.PlainEscapes x e) := by
  cases h : type.fromDict v with
  | ok w =>
    obtain ⟨entries, values, rfl, rfl, hfields⟩ := ok_of_fromDict h
    refine .inl ⟨entries, values, rfl, (ok_of_fieldsFromDict hfields).1, rfl, fun nested x hf => ?_⟩
    rcases hf.record_cases with ⟨-, rfl⟩ | ⟨f, hmem, data, hdata, hf⟩
    · exact .inr (.inl ⟨entries, rfl⟩)
    · obtain ⟨y, hy⟩ := (ok_of_fieldsFromDict hfields).2 f hmem data hdata
      obtain ⟨z, hz⟩ := hf.exists_fromPlain hy
      exact Layout.standsFor_of_fromPlain hz
  | error e =>
    refine .inr ⟨e, rfl, ?_, ?_⟩
    · intro hc
      have hslot : e.IsRefusal ∨ (type.hides .fromDict = true ∧ e = .fault .unsupported) ∨
          (type.isTestable = false ∧ (Layout.record type).PlainEscapes v e) ∨
          ∃ c x, (Layout.record type).Finds v c x ∧ c.fromPlain x = .error e ∧
            c.PlainEscapes x e := by
        rcases error_of_fromDict h with href | hidden | ⟨entries, rfl, he | hfield⟩
        · exact .inl href
        · exact .inr (.inl hidden)
        · cases ht : type.isTestable with
          | false => exact .inr (.inr (.inl ⟨rfl, he⟩))
          | true =>
            rw [← Layout.fromPlain_record_dict ht] at h
            exact .inr (.inr (.inr ⟨_, _, .self _ _, h, he⟩))
        · obtain ⟨f, hf, data, hdata, he⟩ := hfield
          refine (Layout.error_of_fromPlain _ _ _ he).imp_right fun ⟨c, x, hfinds, hx, hescapes⟩ =>
            .inr (.inr ⟨c, x, .step (.field hf hdata) hfinds, hx, hescapes⟩)
      refine hslot.imp_left ?_
      rintro (⟨why, rfl⟩ | hillegal)
      · rw [not_or, WireError.hasClass_invalid] at hc
        obtain ⟨hshow, -⟩ := hc
        push Not at hshow
        obtain ⟨x, hx, hs⟩ := hshow
        exact ⟨why, rfl, x, hx, Bool.not_eq_true _ ▸ hs⟩
      · exact absurd (.inr hillegal) hc
    · rintro (⟨why, rfl, x, hx, hs⟩ | ⟨-, rfl⟩ | ⟨-, he⟩ | ⟨c, x, -, -, he⟩)
      · rintro (hc | hc) <;> exact WireError.not_hasClass_of_not_isShowable hx hs hc
      · rintro (hc | hc) <;> exact WireError.not_hasClass_fault hc
      · obtain ⟨why, rfl⟩ := he.exists_fault
        rintro (hc | hc) <;> exact WireError.not_hasClass_fault hc
      · obtain ⟨why, rfl⟩ := he.exists_fault
        rintro (hc | hc) <;> exact WireError.not_hasClass_fault hc

/-- An integer that is larger than every number is not refused, and zero is taken for a record. -/
theorem RecordLayout.fromDict_outcome_large_integer :
    let point : RecordType := ⟨⟨0, "P"⟩, "P", "P", [], [⟨"x", .primitive .double, none⟩]⟩
    let type : RecordType := ⟨⟨0, "R"⟩, "R", "R", [], [⟨"p", .record point, none⟩]⟩
    point.fromDict (.dict [(.text "x", .int (2 ^ 1024))]) = .error (.fault .tooLarge) ∧
      ¬ (WireError.fault .tooLarge).HasClass .invalidValue ∧
      ¬ (WireError.fault .tooLarge).HasClass .illegalArgument ∧
      type.fromDict (.dict [(.text "p", .int 0)]) =
        .ok (.newRecord type [.newRecord point [.float .zero]]) := by
  intro point type
  have hlarge : Binary64.ofInt? (2 ^ 1024) = none := by decide +kernel
  refine ⟨?_, WireError.not_hasClass_fault, WireError.not_hasClass_fault, rfl⟩
  generalize (2 ^ 1024 : Int) = n at hlarge ⊢
  have hx : (Layout.primitive .double).fromPlain (.int n) = .error (.fault .tooLarge) :=
    Primitive.fromPlain_double_of_large hlarge
  have hfields : fieldsFromDict point.fields [(.text "x", .int n)] = .error (.fault .tooLarge) := by
    rw [fieldsFromDict, Value.lookupText, if_pos rfl]
    simp only [hx]
  have hknown : (unknownKeys point.fieldNames [(.text "x", .int n)]).isEmpty = true := rfl
  rw [fromDict_dict, if_neg (by decide), if_pos hknown, hfields]

end RecordWire
