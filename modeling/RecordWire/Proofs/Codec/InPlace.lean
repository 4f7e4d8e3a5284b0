import RecordWire.Proofs.Codec.Size

/-!
Reading what was written of any value that writing takes, in whatever form. A slot is left where
writing left it, unless a record in it extends the type of the slot: reading knows the fields of that
type only, and leaves the bytes of all further fields to whatever is read next.
-/

namespace RecordWire

open Reader (SpellAll SpellPair)

theorem Reader.SpellAll.of_append {α : Type} {R : Bytes → α → Prop} {bs : Bytes} {xs ys : List α}
    (h : SpellAll R bs (xs ++ ys)) :
    ∃ cs ds, bs = cs ++ ds ∧ SpellAll R cs xs ∧ SpellAll R ds ys := by
  induction xs generalizing bs with
  | nil => exact ⟨[], bs, rfl, .nil, h⟩
  | cons x xs ih =>
    cases h with
    | @cons head rest _ _ hx hxs =>
      obtain ⟨cs, ds, rfl, hcs, hds⟩ := ih hxs
      exact ⟨head ++ cs, ds, (List.append_assoc _ _ _).symm, .cons hx hcs, hds⟩

section

variable {config : Config} {bs : Bytes} {v : Value}

namespace Primitive

theorem exists_scalar {p : Primitive} (hp : p ≠ string) (bs : Bytes) :
    ∃ v, p.scalar? bs = some v := by
  cases p with
  | string => exact absurd rfl hp
  | int | float | double | bool | char => exact ⟨_, rfl⟩

theorem length_of_writes {p : Primitive} (hp : p ≠ string) (h : (p.write config v).Writes bs) :
    bs.length = p.minSize := by
  have hs := encodedSize_of_writes h
  cases p with
  | string => exact absurd rfl hp
  | int | float | double | bool | char => exact (Except.ok.inj hs).symm

theorem minSize_le_of_writes {p : Primitive} (h : (p.write config v).Writes bs) :
    p.minSize ≤ bs.length := by
  by_cases hp : p = string
  · subst hp
    have hsize := encodedSize_of_writes h
    rw [encodedSize] at hsize
    obtain ⟨payload, -, hl⟩ := map_eq_ok_iff.1 hsize
    rw [← hl]
    exact Nat.le_add_right _ _
  · exact Nat.le_of_eq (length_of_writes hp h).symm

theorem exists_spells (ht : config.encoding.isTotal = true) {p : Primitive}
    (h : (p.write config v).Writes bs) :
    ∃ w, p.Spells config.byteOrder config.encoding bs w := by
  by_cases hp : p = string
  · subst hp
    rw [write_string] at h
    cases hv : stringBytes config.encoding v with
    | error e =>
      rw [hv] at h
      exact absurd h Output.not_writes_fail
    | ok payload =>
      rw [hv] at h
      obtain ⟨hn, body, rfl, hb⟩ := Output.writes_counted.1 h
      obtain rfl := Output.writes_chunk.1 hb
      obtain ⟨t, hd⟩ := Option.isSome_iff_exists.1 (Encoding.isSome_decode ht body)
      exact ⟨.text t, body, t, hn, rfl, Encoding.decode_eq_ok.2 hd, rfl⟩
  · obtain ⟨w, hw⟩ := exists_scalar hp (config.byteOrder.arrange bs)
    exact ⟨w, (spells_scalar hp).2 ⟨length_of_writes hp h, hw⟩⟩

end Primitive

/-- Every value that writing comes to in a record slot begins with the fields of the type of the slot,
and further fields that it has write nothing. -/
def Layout.InPlace (config : Config) (codec : Codec) (v : Value) : Prop :=
  ∀ type head values, codec.Reaches v (.record type) (.record head values) →
    ∃ added inherited surplus, head.type.fields = type.fields ++ added ∧
      values = inherited ++ surplus ∧ inherited.length = type.fields.length ∧
      (writeFields config added surplus).Writes []

theorem Layout.InPlace.passes {codec c : Codec} {w : Value} (h : codec.InPlace config v)
    (hp : codec.Passes v c w) : c.InPlace config w :=
  fun type head values hr => h type head values (.pass hp hr)

namespace Layout

theorem inPlace_primitive (p : Primitive) : (primitive p).InPlace config v := by
  rintro type head values (_ | ⟨h, _⟩)
  cases h

theorem inPlace_list {element : Codec} {items : List Value}
    (hv : v.items (list element).name = .ok items) (h : ∀ x ∈ items, element.InPlace config x) :
    (list element).InPlace config v := by
  rintro type head values (_ | ⟨hp, hr⟩)
  cases hp with
  | item hv' hx =>
    rw [hv] at hv'
    cases hv'
    exact h _ hx type head values hr

theorem inPlace_record {type : RecordType} {head : RecordHead Value} {added : List Field}
    (inherited surplus : List Value) (hf : head.type.fields = type.fields ++ added)
    (hl : inherited.length = type.fields.length)
    (hnone : (writeFields config added surplus).Writes [])
    (h : ∀ p ∈ head.type.fields.zip (inherited ++ surplus), p.1.layout.InPlace config p.2) :
    (record type).InPlace config (.record head (inherited ++ surplus)) := by
  rintro type' head' values' (_ | ⟨hp, hr⟩)
  · exact ⟨added, inherited, surplus, hf, rfl, hl, hnone⟩
  · cases hp with
    | field hk hmem => exact h _ hmem type' head' values' hr

end Layout

theorem exists_fieldsSpell {fields : List Field} {values : List Value}
    (hl : values.length = fields.length)
    (ih : ∀ p ∈ fields.zip values, ∀ cs, (p.1.layout.write config p.2).Writes cs →
      ∃ w, p.1.layout.Spells config.byteOrder config.encoding cs w)
    (hw : SpellAll (fun cs p => (p.1.layout.write config p.2).Writes cs) bs (fields.zip values)) :
    ∃ ws, fieldsSpell config.byteOrder config.encoding fields bs ws := by
  induction fields generalizing values bs with
  | nil =>
    cases hw
    exact ⟨[], rfl, rfl⟩
  | cons f fields ihs =>
    cases values with
    | nil => cases hl
    | cons v values =>
      cases hw with
      | cons head tail =>
        obtain ⟨w, hw⟩ := ih (f, v) List.mem_cons_self _ head
        obtain ⟨ws, hws⟩ := ihs (Nat.succ.inj hl)
          (fun p hp => ih p (List.mem_cons_of_mem _ hp)) tail
        exact ⟨w :: ws, fieldsSpell_cons.2 ⟨_, _, w, ws, rfl, rfl, hw, hws⟩⟩

theorem RecordLayout.hides_of_fields_append {base type : RecordType} {added : List Field}
    (hf : type.fields = base.fields ++ added) {operation : Operation}
    (h : type.hides operation = false) : base.hides operation = false := by
  simp only [hides, fieldNames, hf, List.map_append, List.contains_append,
    Bool.or_eq_false_iff] at h
  exact h.1

theorem exists_of_writes_fields_append {fields added : List Field} {values more : List Value}
    (hl : values.length = fields.length)
    (h : (writeFields config (fields ++ added) (values ++ more)).Writes bs) :
    ∃ cs ds, bs = cs ++ ds ∧ (writeFields config fields values).Writes cs ∧
      (writeFields config added more).Writes ds := by
  rw [writes_fields, List.zip_append hl.symm] at h
  obtain ⟨cs, ds, rfl, hcs, hds⟩ := h.of_append
  exact ⟨cs, ds, rfl, writes_fields.2 hcs, writes_fields.2 hds⟩

namespace Layout

/-- A record in the slot of a type that it extends is written as a record of that type and what its
further fields write. -/
theorem exists_spells_inherited {type : RecordType} {head : RecordHead Value} {added : List Field}
    {inherited surplus : List Value} (hread : type.isFillable = true)
    (hf : head.type.fields = type.fields ++ added) (hl : inherited.length = type.fields.length)
    (ih : ∀ p ∈ type.fields.zip inherited, ∀ cs, (p.1.layout.write config p.2).Writes cs →
      ∃ w, p.1.layout.Spells config.byteOrder config.encoding cs w)
    (hw : ((record type).write config (.record head (inherited ++ surplus))).Writes bs) :
    ∃ cs ds w, bs = cs ++ ds ∧
      (record type).Spells config.byteOrder config.encoding cs w ∧
      (writeFields config added surplus).Writes ds := by
  obtain ⟨_, _, hr, hk, -, hfields, hbody⟩ := writes_kind.1 hw
  cases hr
  rw [hf, List.zip_append hl.symm] at hbody
  obtain ⟨cs, ds, rfl, hcs, hds⟩ := hbody.of_append
  obtain ⟨ws, hws⟩ := exists_fieldsSpell hl ih hcs
  have hshown : type.hides .fields = false := by
    rw [RecordHead.hides, Bool.or_eq_false_iff] at hfields
    exact RecordLayout.hides_of_fields_append hf hfields.1
  exact ⟨cs, ds, _, rfl, ⟨hread, RecordLayout.spells_iff.2 ⟨hshown, ws, hws, rfl⟩⟩,
    writes_fields.2 hds⟩

theorem exists_spells (ht : config.encoding.isTotal = true) (codec : Codec) (v : Value) :
    codec.isReadable = true → codec.InPlace config v → ∀ bs, (codec.write config v).Writes bs →
      ∃ w, codec.Spells config.byteOrder config.encoding bs w := by
  induction codec, v using induct_passes with
  | step codec v ih =>
    intro hr hp bs h
    cases codec with
    | primitive p =>
      rw [write_primitive] at h
      exact Primitive.exists_spells ht h
    | rgb565 =>
      rw [write_rgb565] at h
      exact ⟨_, length_of_writeColour h, rfl⟩
    | list element =>
      simp only [isReadable, every, Bool.and_eq_true] at hr
      obtain ⟨items, hv⟩ := exists_items_of_writes h
      obtain ⟨hn, body, rfl, hbody⟩ := (writes_items hv).1 h
      obtain ⟨ps, rfl, hps⟩ := hbody.exists_partners fun cs x hx =>
        ih element x (.item hv hx) hr.2 (hp.passes (.item hv hx)) cs
      have hn' : (ps.map (·.2)).length < 2 ^ 32 := by simpa using hn
      exact ⟨_, hr.1, body, ps.map (·.2), hn', by simp, hps.map, rfl⟩
    | map key value =>
      simp only [isReadable, every, Bool.and_eq_true] at hr
      obtain ⟨pairs, hv⟩ := exists_pairs_of_writes h
      obtain ⟨arranged, ha, hn, body, rfl, hbody⟩ := (writes_map hv).1 h
      obtain ⟨ps, rfl, hps⟩ := hbody.exists_partners
        (S := fun cs _ f => SpellPair (key.Spells config.byteOrder config.encoding)
          (fun cs x => value.Spells config.byteOrder config.encoding cs x) cs f) fun cs e he hw => by
        have hpass : (map key value).Passes v value e.2 :=
          .value hv ((perm_of_arrangeEntries ha).mem_iff.1 he)
        obtain ⟨ks, xs, rfl, hk, hx⟩ := hw
        obtain ⟨k, hk⟩ := Primitive.exists_spells ht hk
        obtain ⟨x, hx⟩ := ih value e.2 hpass hr.2 (hp.passes hpass) xs hx
        exact ⟨(k, x), ks, xs, rfl, hk, hx⟩
      have hn' : (ps.map (·.2)).length < 2 ^ 32 := by simpa using hn
      exact ⟨_, hr.1, body, ps.map (·.2), hn', by simp, hps.map, rfl⟩
    | record type =>
      simp only [isReadable, every, Bool.and_eq_true, RecordLayout.every_eq_true] at hr
      obtain ⟨head, values, rfl, hk, -, -, -⟩ := writes_kind.1 h
      obtain ⟨added, inherited, surplus, hf, rfl, hl, hnone⟩ := hp type head values (.self _ _)
      obtain ⟨cs, ds, w, rfl, hspells, hds⟩ := exists_spells_inherited
        (by simpa [canRead] using hr.1) hf hl (fun p hmem cs hw => by
          have hpass : (record type).Passes (.record head (inherited ++ surplus)) p.1.layout p.2 :=
            .field hk (by
              rw [hf, List.zip_append hl.symm]
              exact List.mem_append_left _ hmem)
          exact ih _ _ hpass (hr.2 p.1 (List.of_mem_zip hmem).1) (hp.passes hpass) cs hw) h
      rw [hds.unique hnone, List.append_nil]
      exact ⟨w, hspells⟩

/-- What is written in place is read in place, whatever follows. Where a record extends the type of its
slot, reading stops behind the fields of that type and leaves what the further fields have written.
-/
theorem read_write_in_place (config : Config) (ht : config.encoding.isTotal = true) :
    (∀ (codec : Codec) v bs, codec.isReadable = true → codec.InPlace config v →
      (codec.write config v).Writes bs → ∀ more, ∃ w,
        codec.read config (.ofBytes (bs ++ more)) = .ok w (.buffer (bs ++ more) bs.length)) ∧
    ∀ (type : RecordType) (head : RecordHead Value) added inherited surplus bs,
      (record type).isReadable = true → head.type.fields = type.fields ++ added →
      inherited.length = type.fields.length →
      (∀ p ∈ type.fields.zip inherited, p.1.layout.InPlace config p.2) →
      ((record type).write config (.record head (inherited ++ surplus))).Writes bs →
      ∃ cs ds, bs = cs ++ ds ∧ (writeFields config added surplus).Writes ds ∧ ∀ more, ∃ w,
        (record type).read config (.ofBytes (bs ++ more)) =
          .ok w (.buffer (bs ++ more) cs.length) := by
  constructor
  · intro codec v bs hr hp h more
    obtain ⟨w, hw⟩ := exists_spells ht codec v hr hp bs h
    exact ⟨w, (codec.reads config).complete hw [] more⟩
  · intro type head added inherited surplus bs hr hf hl hp h
    simp only [isReadable, every, Bool.and_eq_true, RecordLayout.every_eq_true] at hr
    obtain ⟨cs, ds, w, rfl, hspells, hds⟩ := exists_spells_inherited
      (by simpa [canRead] using hr.1) hf hl (fun p hmem cs hw =>
        exists_spells ht p.1.layout p.2 (hr.2 p.1 (List.of_mem_zip hmem).1) (hp p hmem) cs hw) h
    refine ⟨cs, ds, rfl, hds, fun more => ⟨w, ?_⟩⟩
    rw [List.append_assoc]
    exact ((record type).reads config).complete hspells [] (ds ++ more)

end Layout

end

/-- A tuple for a list, and in it a boolean for an integer, in a record that extends the type of its
slot by a record without fields; and a record that extends the type of its slot by an integer, of
which the integer is left unread. -/
theorem Layout.read_write_in_place_extended :
    let a : Field := ⟨"a", .primitive (.int .uint8), none⟩
    let empty : RecordType := ⟨⟨0, "E"⟩, "E", "E", [], []⟩
    let base : RecordType := ⟨⟨1, "B"⟩, "B", "B", [], [a]⟩
    let e : Field := ⟨"e", .record empty, none⟩
    let light : RecordType := ⟨⟨2, "L"⟩, "L", "L", [⟨1, "B"⟩], [a, e]⟩
    let b : Field := ⟨"b", .primitive (.int .uint8), none⟩
    let heavy : RecordType := ⟨⟨3, "H"⟩, "H", "H", [⟨1, "B"⟩], [a, b]⟩
    let codec : Codec := .list (.record base)
    let v : Value := .tuple [.newRecord light [.bool true, .newRecord empty []]]
    let w : Value := .newRecord heavy [.int 1, .int 2]
    ((codec.write {} v).Writes [1, 0, 0, 0, 1] ∧ ∀ more, ∃ x,
      codec.read {} (.ofBytes ([1, 0, 0, 0, 1] ++ more)) =
        .ok x (.buffer ([1, 0, 0, 0, 1] ++ more) 5)) ∧
    ((Layout.record base).write {} w).Writes [1, 2] ∧ ∀ more, ∃ x,
      (Layout.record base).read {} (.ofBytes ([1, 2] ++ more)) =
        .ok x (.buffer ([1, 2] ++ more) 1) := by
  intro a empty base e light b heavy codec v w
  have hlight : (writeFields {} light.fields [.bool true, .newRecord empty []]).Writes [1] := by
    simp only [writeFields, light, a, e, empty, List.zip_cons_cons, List.zip_nil_right, List.map,
      Layout.write_primitive, Layout.write_record]
    exact Output.writes_iff.2 ⟨rfl, rfl⟩
  have hheavy : (writeFields {} heavy.fields [.int 1, .int 2]).Writes [1, 2] := by
    simp only [writeFields, heavy, a, b, List.zip_cons_cons, List.zip_nil_right, List.map,
      Layout.write_primitive]
    exact Output.writes_iff.2 ⟨rfl, rfl⟩
  have hv : (codec.write {} v).Writes [1, 0, 0, 0, 1] := by
    refine (Layout.writes_items rfl).2 ⟨by decide, [1], by decide, ?_⟩
    rw [← List.append_nil [1]]
    exact .cons (Layout.writes_kind.2 ⟨_, _, rfl, rfl, rfl, rfl, writes_fields.1 hlight⟩) .nil
  have hw : ((Layout.record base).write {} w).Writes [1, 2] :=
    Layout.writes_kind.2 ⟨_, _, rfl, rfl, rfl, rfl, writes_fields.1 hheavy⟩
  have hsurplus : (writeFields {} [b] [.int 2]).Writes [2] := by
    simp only [writeFields, b, List.zip_cons_cons, List.zip_nil_right, List.map,
      Layout.write_primitive]
    exact Output.writes_iff.2 ⟨rfl, rfl⟩
  have hnone : (writeFields {} [e] [.newRecord empty []]).Writes [] := by
    simp only [writeFields, e, empty, List.zip_cons_cons, List.zip_nil_right, List.map,
      Layout.write_record]
    exact Output.writes_iff.2 ⟨rfl, rfl⟩
  have hp : codec.InPlace {} v := by
    refine Layout.inPlace_list rfl (List.forall_mem_singleton.2 ?_)
    refine Layout.inPlace_record [.bool true] [.newRecord empty []] rfl rfl hnone ?_
    refine List.forall_mem_cons.2 ⟨Layout.inPlace_primitive _, List.forall_mem_singleton.2 ?_⟩
    exact Layout.inPlace_record [] [] rfl rfl (Output.writes_empty.2 rfl) (by simp [empty])
  obtain ⟨hin, hover⟩ := Layout.read_write_in_place {} rfl
  obtain ⟨cs, ds, hbs, hds, hread⟩ := hover base { type := heavy } [b] [.int 1] [.int 2] [1, 2] rfl
    rfl rfl (List.forall_mem_singleton.2 (Layout.inPlace_primitive _)) hw
  obtain rfl := hds.unique hsurplus
  obtain rfl : [1] = cs := List.append_cancel_right hbs
  exact ⟨⟨hv, hin codec v _ rfl hp hv⟩, hw, hread⟩

/-- A record with a record in its first field that extends the type of the field: the surplus byte is
read as the second field, whose own byte is left. -/
theorem Layout.read_write_displaced :
    let a : Field := ⟨"a", .primitive (.int .uint8), none⟩
    let base : RecordType := ⟨⟨0, "B"⟩, "B", "B", [], [a]⟩
    let heavy : RecordType :=
      ⟨⟨1, "H"⟩, "H", "H", [⟨0, "B"⟩], [a, ⟨"b", .primitive (.int .uint8), none⟩]⟩
    let type : RecordType := ⟨⟨2, "S"⟩, "S", "S", [],
      [⟨"r", .record base, none⟩, ⟨"c", .primitive (.int .uint8), none⟩]⟩
    let v : Value := .newRecord type [.newRecord heavy [.int 1, .int 2], .int 7]
    ((Layout.record type).write {} v).Writes [1, 2, 7] ∧
      (Layout.record type).read {} (.ofBytes [1, 2, 7]) =
        .ok (.newRecord type [.newRecord base [.int 1], .int 2]) (.buffer [1, 2, 7] 2) := by
  intro a base heavy type v
  have hw : (writeFields {} type.fields
      [.newRecord heavy [.int 1, .int 2], .int 7]).Writes [1, 2, 7] := by
    simp only [writeFields, type, heavy, a, List.zip_cons_cons, List.zip_nil_right, List.map,
      Layout.write_primitive, Layout.write_record]
    exact Output.writes_iff.2 ⟨rfl, rfl⟩
  exact ⟨Layout.writes_newRecord.2 ⟨rfl, rfl, hw⟩, rfl⟩

end RecordWire
