import RecordWire.Proofs.Codec.Initial
import RecordWire.Proofs.Wire.Stream

/-!
Least sizes. No value is read from fewer bytes than the least size of its layout says, and none is
written in fewer, if the records in it have the fields that their slots declare. The least size is
reached by empty lists and maps and by the defaults of primitives, whatever a type declares as its
defaults, unless a record type that is part of every encoding hides an operation of writing.
-/

namespace RecordWire

open Reader (SpellAll)
open Source (amid)

variable {config : Config} {bs : Bytes} {v : Value}

namespace Layout

/-- Every record that writing comes to begins with the fields of the type that its slot declares, with
values for them. -/
def Inherits (codec : Codec) (v : Value) : Prop :=
  ∀ type head values, codec.Reaches v (.record type) (.record head values) →
    ∃ added inherited surplus, head.type.fields = type.fields ++ added ∧
      values = inherited ++ surplus ∧ inherited.length = type.fields.length

/-- Every record that writing comes to is of the very type that its slot declares. -/
def Declares (codec : Codec) (v : Value) : Prop :=
  ∀ type head values, codec.Reaches v (.record type) (.record head values) →
    head.type = type ∧ values.length = type.fields.length

variable {codec c : Codec} {w : Value}

theorem Inherits.passes (h : codec.Inherits v) (hp : codec.Passes v c w) : c.Inherits w :=
  fun type head values hr => h type head values (.pass hp hr)

theorem Declares.passes (h : codec.Declares v) (hp : codec.Passes v c w) : c.Declares w :=
  fun type head values hr => h type head values (.pass hp hr)

theorem Declares.inherits (h : codec.Declares v) : codec.Inherits v := by
  intro type head values hr
  obtain ⟨rfl, hl⟩ := h type head values hr
  exact ⟨[], values, [], (List.append_nil _).symm, (List.append_nil _).symm, hl⟩

theorem declares_of_not_passes (hc : ∀ type, codec ≠ .record type)
    (h : ∀ c w, ¬ codec.Passes v c w) : codec.Declares v := by
  rintro type head values (_ | ⟨hp, hr⟩)
  · exact (hc type rfl).elim
  · exact (h _ _ hp).elim

end Layout

section

variable {R : Bytes → Field × Value → Prop} {fields : List Field} {values : List Value}

theorem minSizes_le_of_spellAll (hl : values.length = fields.length)
    (h : ∀ p ∈ fields.zip values, ∀ cs, R cs p → p.1.layout.minSize ≤ cs.length)
    (hs : SpellAll R bs (fields.zip values)) : Layout.minSizes fields ≤ bs.length := by
  induction fields generalizing values bs with
  | nil => exact Nat.zero_le _
  | cons f fields ih =>
    cases values with
    | nil => cases hl
    | cons x values =>
      cases hs with
      | cons head tail =>
        have hf := h (f, x) List.mem_cons_self _ head
        have hfields := ih (Nat.succ.inj hl) (fun p hp => h p (List.mem_cons_of_mem _ hp)) tail
        rw [minSizes_cons, List.length_append]
        exact Nat.add_le_add hf hfields

theorem exists_length_of_minSizes (hl : values.length = fields.length)
    (h : ∀ p ∈ fields.zip values, ∀ cs, R cs p → p.1.layout.minSize ≤ cs.length)
    (hs : SpellAll R bs (fields.zip values)) (hbs : bs.length = Layout.minSizes fields) :
    ∀ f ∈ fields, ∃ x cs, (f, x) ∈ fields.zip values ∧ R cs (f, x) ∧
      cs.length = f.layout.minSize := by
  induction fields generalizing values bs with
  | nil => simp
  | cons f fields ih =>
    cases values with
    | nil => cases hl
    | cons x values =>
      cases hs with
      | @cons cs ds _ _ head tail =>
        have hfields := fun p hp => h p (List.mem_cons_of_mem (f, x) hp)
        have hleast := h (f, x) List.mem_cons_self _ head
        have hleasts := minSizes_le_of_spellAll (Nat.succ.inj hl) hfields tail
        rw [minSizes_cons, List.length_append] at hbs
        dsimp only at hleast
        refine List.forall_mem_cons.2 ⟨?_, fun g hg => ?_⟩
        · exact ⟨x, cs, List.mem_cons_self, head, by omega⟩
        · obtain ⟨y, es, hmem, hy, he⟩ := ih (Nat.succ.inj hl) hfields tail (by omega) g hg
          exact ⟨y, es, List.mem_cons_of_mem _ hmem, hy, he⟩

end

namespace Layout

theorem minSize_record (type : RecordType) : (record type).minSize = minSizes type.fields := by
  cases type
  rfl

theorem minSize_le_of_read {codec : Codec} {before rest : Bytes} {t : Source}
    (h : codec.read config (amid before rest) = .ok v t) :
    ∃ used after, rest = used ++ after ∧ t = amid (before ++ used) after ∧
      codec.minSize ≤ used.length := by
  obtain ⟨used, after, rfl, rfl, hspells⟩ := (codec.reads config).sound h
  exact ⟨used, after, rfl, rfl, minSize_le_of_spells hspells⟩

theorem minSize_le_of_read_along {codec : Codec} {s : ByteStream} {before rest : Bytes} {t : Source}
    (hs : s.Supplies (before ++ rest))
    (h : codec.read config (.along s before.length) = .ok v t) :
    ∃ used after, rest = used ++ after ∧ t = .along s (before ++ used).length ∧
      codec.minSize ≤ used.length := by
  have hfollows : (codec.read config).Follows s (before ++ rest) (codec.read (config.knowing s)) :=
    codec.read_follows hs
  cases hb : codec.read (config.knowing s) (amid before rest) with
  | error e u =>
    obtain ⟨u, hu⟩ := hfollows.error rfl hb
    cases h.symm.trans hu
  | ok w u =>
    obtain ⟨used, after, rfl, rfl, hleast⟩ := minSize_le_of_read hb
    obtain ⟨used', after', hrest, hplace, ht⟩ := hfollows.ok rfl hb
    have hlength : (before ++ used).length = (before ++ used').length :=
      Int.ofNat_inj.1 (congrArg Source.position hplace)
    rw [← hlength] at ht
    cases h.symm.trans ht
    exact ⟨used, after, rfl, rfl, hleast⟩

theorem minSize_le_of_writes (codec : Codec) (v : Value) : codec.Inherits v →
    ∀ bs, (codec.write config v).Writes bs → codec.minSize ≤ bs.length := by
  induction codec, v using induct_passes with
  | step codec v ih =>
    intro hv bs h
    cases codec with
    | primitive p =>
      rw [write_primitive] at h
      exact Primitive.minSize_le_of_writes h
    | rgb565 => exact Nat.zero_le _
    | list element =>
      obtain ⟨items, hitems⟩ := exists_items_of_writes h
      obtain ⟨-, body, rfl, -⟩ := (writes_items hitems).1 h
      rw [List.length_append, ByteOrder.length_countBytes]
      exact Nat.le_add_right _ _
    | map key value =>
      obtain ⟨pairs, hpairs⟩ := exists_pairs_of_writes h
      obtain ⟨arranged, -, -, body, rfl, -⟩ := (writes_map hpairs).1 h
      rw [List.length_append, ByteOrder.length_countBytes]
      exact Nat.le_add_right _ _
    | record type =>
      obtain ⟨head, values, rfl, hk, -, -, hbody⟩ := writes_kind.1 h
      obtain ⟨added, inherited, surplus, hf, rfl, hl⟩ := hv type head values (.self _ _)
      -- The declared fields come first, and what further fields write is more than needed.
      have hzip : head.type.fields.zip (inherited ++ surplus) =
          type.fields.zip inherited ++ added.zip surplus := by
        rw [hf, List.zip_append hl.symm]
      rw [hzip] at hbody
      obtain ⟨cs, ds, rfl, hcs, -⟩ := hbody.of_append
      have hleast := minSizes_le_of_spellAll hl (fun p hp => by
        have hpass : (record type).Passes (.record head (inherited ++ surplus)) p.1.layout p.2 :=
          .field hk (hzip ▸ List.mem_append_left _ hp)
        exact ih _ _ hpass (hv.passes hpass)) hcs
      rw [minSize_record, List.length_append]
      exact Nat.le_add_right_of_le hleast

end Layout

section

variable {δ : Type}

mutual

/-- Whether there is a value that is written in the least size of the layout: of what is part of every
encoding, no record type hides an operation of writing, and nothing is a colour, which takes more than the
size that it gives. -/
def Layout.isAttained : Layout δ → Bool
  | .rgb565 => false
  | .record type => type.isAttained
  | _ => true

def RecordLayout.isAttained : RecordLayout δ → Bool
  | ⟨id, className, typeName, bases, fields⟩ =>
    !(RecordLayout.mk id className typeName bases fields).hides .writeData &&
      !(RecordLayout.mk id className typeName bases fields).hides .fields &&
      Layout.areAttained fields

def Layout.areAttained : List (FieldLayout δ) → Bool
  | [] => true
  | ⟨_, layout, _⟩ :: fields => layout.isAttained && Layout.areAttained fields

end

theorem Layout.areAttained_eq_true {fields : List (FieldLayout δ)} :
    Layout.areAttained fields = true ↔ ∀ f ∈ fields, f.layout.isAttained = true := by
  induction fields with
  | nil => simp [Layout.areAttained]
  | cons f fields ih => cases f; simp [Layout.areAttained, ih]

theorem Layout.isAttained_record {type : RecordLayout δ} :
    (Layout.record type).isAttained = true ↔ type.hides .writeData = false ∧
      type.hides .fields = false ∧ ∀ f ∈ type.fields, f.layout.isAttained = true := by
  cases type
  simp only [Layout.isAttained, RecordLayout.isAttained, Bool.and_eq_true, Bool.not_eq_true',
    Layout.areAttained_eq_true, and_assoc]

end

mutual

/-- A value of the layout that takes as few bytes as there can be, whatever the declared defaults are. -/
def Layout.least : Codec → Value
  | .primitive p => p.default
  | .rgb565 => .tuple [.int 0, .int 0, .int 0]
  | .list _ => .list []
  | .map _ _ => .dict []
  | .record type => type.least

def RecordLayout.least : RecordType → Value
  | ⟨id, className, typeName, bases, fields⟩ =>
    .newRecord ⟨id, className, typeName, bases, fields⟩ (Layout.leasts fields)

def Layout.leasts : List Field → List Value
  | [] => []
  | ⟨_, layout, _⟩ :: fields => layout.least :: Layout.leasts fields

end

theorem Layout.leasts_eq (fields : List Field) :
    Layout.leasts fields = fields.map fun f => f.layout.least := by
  induction fields with
  | nil => rfl
  | cons f fields ih => cases f; simp [Layout.leasts, ih]

theorem Layout.least_record (type : RecordType) :
    (Layout.record type).least = .newRecord type (type.fields.map fun f => f.layout.least) := by
  cases type
  rw [Layout.least, RecordLayout.least, Layout.leasts_eq]

theorem exists_writes_leasts (config : Config) {fields : List Field}
    (h : ∀ f ∈ fields, ∃ bs, (f.layout.write config f.layout.least).Writes bs ∧
      bs.length = f.layout.minSize) :
    ∃ bs, (writeFields config fields (fields.map fun f => f.layout.least)).Writes bs ∧
      bs.length = Layout.minSizes fields := by
  induction fields with
  | nil => exact ⟨[], Output.writes_empty.2 rfl, rfl⟩
  | cons f fields ih =>
    obtain ⟨⟨cs, hcs, hc⟩, hfields⟩ := List.forall_mem_cons.1 h
    obtain ⟨ds, hds, hd⟩ := ih hfields
    refine ⟨cs ++ ds, writes_fields_cons.2 ⟨cs, ds, rfl, hcs, hds⟩, ?_⟩
    rw [List.length_append, minSizes_cons, hc, hd]

namespace Layout

theorem exists_writes_least (config : Config) {codec : Codec} (h : codec.isAttained = true) :
    ∃ bs, (codec.write config codec.least).Writes bs ∧ bs.length = codec.minSize := by
  induction codec using Layout.induct with
  | primitive p =>
    obtain ⟨bs, hbs, hl⟩ := p.exists_writes_default config
    exact ⟨bs, by rwa [write_primitive], hl⟩
  | rgb565 => cases h
  | list element =>
    refine ⟨_, writes_list.2 ⟨by decide, [], rfl, .nil⟩, ?_⟩
    rw [List.append_nil, ByteOrder.length_countBytes]
    rfl
  | map key value =>
    have harrange : arrangeEntries config ([] : List (Value × Value)) = some [] := by
      unfold arrangeEntries
      split <;> rfl
    refine ⟨_, (writes_map rfl).2 ⟨[], harrange, by decide, [], rfl, .nil⟩, ?_⟩
    rw [List.append_nil, ByteOrder.length_countBytes]
    rfl
  | record type ih =>
    obtain ⟨hwrite, hfields, hall⟩ := isAttained_record.1 h
    obtain ⟨bs, hbs, hl⟩ := exists_writes_leasts config fun f hf => ih f hf (hall f hf)
    refine ⟨bs, ?_, hl.trans (minSize_record type).symm⟩
    rw [least_record]
    exact writes_newRecord.2 ⟨hwrite, hfields, hbs⟩

theorem declares_least (codec : Codec) : codec.Declares codec.least := by
  induction codec using Layout.induct with
  | primitive p => exact declares_of_not_passes (by simp) fun c w h => by cases h
  | rgb565 => exact declares_of_not_passes (by simp) fun c w h => by cases h
  | list element =>
    refine declares_of_not_passes (by simp) fun c w h => ?_
    cases h with
    | item hv hx =>
      cases hv
      cases hx
  | map key value =>
    refine declares_of_not_passes (by simp) fun c w h => ?_
    cases h with
    | key hv he | value hv he =>
      cases hv
      cases he
  | record type ih =>
    rw [least_record]
    rintro type' head values (_ | ⟨hp, hr⟩)
    · exact ⟨rfl, List.length_map _⟩
    · cases hp with
      | field hk hmem =>
        rw [← List.map_prod_left_eq_zip] at hmem
        obtain ⟨f, hf, rfl⟩ := List.mem_map.1 hmem
        exact ih f hf type' head values hr

theorem isAttained_of_writes (codec : Codec) (v : Value) : codec.Declares v →
    ∀ bs, (codec.write config v).Writes bs → bs.length = codec.minSize →
      codec.isAttained = true := by
  induction codec, v using induct_passes with
  | step codec v ih =>
    intro hv bs h hl
    cases codec with
    | primitive | list | map => rfl
    | rgb565 =>
      rw [write_rgb565] at h
      rw [length_of_writeColour h] at hl
      cases hl
    | record type =>
      obtain ⟨head, values, rfl, hk, hwrite, hfields, hbody⟩ := writes_kind.1 h
      obtain ⟨rfl, hvalues⟩ := hv type head values (.self _ _)
      rw [RecordHead.hides, Bool.or_eq_false_iff] at hwrite hfields
      refine isAttained_record.2 ⟨hwrite.1, hfields.1, fun f hf => ?_⟩
      have hpass : ∀ p ∈ head.type.fields.zip values,
          (record head.type).Passes (.record head values) p.1.layout p.2 := fun p hp => .field hk hp
      obtain ⟨x, cs, hmem, hx, hc⟩ := exists_length_of_minSizes hvalues
        (fun p hp => minSize_le_of_writes p.1.layout p.2 (hv.passes (hpass p hp)).inherits)
        hbody (hl.trans (minSize_record _)) f hf
      exact ih _ _ (hpass _ hmem) (hv.passes (hpass _ hmem)) cs hx hc

/-- The least size of a layout is a bound of what is read, from a buffer or a stream at any place, and of
what is written. It is reached by a value that holds records of the very types that the layout declares,
exactly if, of what is part of every encoding, no record type hides an operation of writing and nothing is
a colour. -/
theorem minSize_least (config : Config) (codec : Codec) :
    (∀ before rest v t, codec.read config (amid before rest) = .ok v t →
      ∃ used after, rest = used ++ after ∧ t = amid (before ++ used) after ∧
        codec.minSize ≤ used.length) ∧
    (∀ (s : ByteStream) before rest v t, s.Supplies (before ++ rest) →
      codec.read config (.along s before.length) = .ok v t →
      ∃ used after, rest = used ++ after ∧ t = .along s (before ++ used).length ∧
        codec.minSize ≤ used.length) ∧
    (∀ v bs, codec.Inherits v → (codec.write config v).Writes bs → codec.minSize ≤ bs.length) ∧
    (codec.isAttained = true ↔ ∃ v bs, codec.Declares v ∧ (codec.write config v).Writes bs ∧
      bs.length = codec.minSize) := by
  refine ⟨fun _ _ _ _ h => minSize_le_of_read h, fun _ _ _ _ _ hs h => minSize_le_of_read_along hs h,
    fun v bs hv h => minSize_le_of_writes codec v hv bs h, ?_⟩
  constructor
  · intro h
    obtain ⟨bs, hbs, hl⟩ := exists_writes_least config h
    exact ⟨_, bs, declares_least codec, hbs, hl⟩
  · rintro ⟨v, bs, hv, h, hl⟩
    exact isAttained_of_writes codec v hv bs h hl

/-- A record with a record without fields in it, whose one field hides how records are written. -/
theorem minSize_hidden :
    let empty : RecordType := ⟨⟨0, "E"⟩, "E", "E", [], []⟩
    let type : RecordType := ⟨⟨1, "R"⟩, "R", "R", [], [⟨"write_data", .record empty, none⟩]⟩
    (record type).minSize = 0 ∧
      ∀ v bs, (record type).Declares v → ¬ ((record type).write {} v).Writes bs := by
  intro empty type
  refine ⟨rfl, fun v bs hv h => ?_⟩
  obtain ⟨head, values, rfl, -, hwrite, -, -⟩ := writes_kind.1 h
  obtain ⟨htype, -⟩ := hv _ head values (.self _ _)
  rw [RecordHead.hides, htype, Bool.or_eq_false_iff] at hwrite
  cases hwrite.1

end Layout

end RecordWire
