import RecordWire.Proofs.Codec.InPlace
import RecordWire.Proofs.Service.Whole
import RecordWire.Proofs.Term.Lineage

/-!
Records read as a type that theirs comes from. The fields of a base come first on the wire, so its own
fields are what it reads from a record of any type on top of it. The bytes of the other fields are
left behind those, where lenient reading does not look and strict reading refuses them.
-/

namespace RecordWire

open RecordTerm (Lineage Descends)

namespace RecordLayout

variable {config : Config} {base type : RecordType} {head : RecordHead Value} {added : List Field}
  {inherited more : List Value} {bs : Bytes}

/-- A record is the record of a type whose fields begin those of its own, with the bytes of the
others behind it. -/
theorem exists_spells_base (ht : head.type = type) (hf : type.fields = base.fields ++ added)
    (hc : fieldsCanonicalBy (fun t => t.hasSurrogate = false) Layout.canRead base.fields inherited)
    (hw : ((Value.record head (inherited ++ more)).encode config).Writes bs) :
    ∃ cs ds ws, bs = cs ++ ds ∧
      base.Spells config.byteOrder config.encoding cs (.newRecord base ws) ∧
      (writeFields config added more).Writes ds ∧ Value.AgreeAll inherited ws := by
  obtain ⟨hshown, hfields⟩ := Value.writes_encode_iff.1 hw
  rw [RecordHead.hides, Bool.or_eq_false_iff, ht] at hshown
  rw [ht, hf] at hfields
  obtain ⟨cs, ds, rfl, hcs, hds⟩ :=
    exists_of_writes_fields_append (length_of_fieldsCanonicalBy hc) hfields
  obtain ⟨ws, hspells, hagrees⟩ := exists_fields_spell hc hcs
  have hbase := hides_of_fields_append hf hshown.1
  exact ⟨cs, ds, ws, rfl, spells_iff.2 ⟨hbase, ws, hspells, rfl⟩, hds, hagrees⟩

/-- Plain declarations one after the other give types whose fields are those that the types of their
lineage declare, first to last, and no two have the same name. So a record of a type is read by every
type it comes from that does not hide the operation: from its bytes comes a record whose fields agree
with the inherited ones, if these are canonical and nothing in them keeps from being read. The bytes of
the other fields are only looked at in strict mode, in which there must not be any. -/
theorem fromBytes_descendant (config : Config) {declared after : List (Text × RecordType)}
    {ts : List RecordTerm} (hl : ∀ p ∈ declared, ∃ parts, Lineage p.2 parts)
    (hp : ∀ t ∈ ts, t.isPlain = true) (hts : RecordTerm.declareAll declared ts = .ok after)
    {name : Text} {type : RecordType} (htype : (name, type) ∈ after) :
    (∃ parts, Lineage type parts ∧ type.fields = parts.flatten) ∧ type.fieldNames.Nodup ∧
    ∀ (base : RecordType) (added : List (List Field)), Descends base type added →
      type.fields = base.fields ++ added.flatten ∧
      ∀ (head : RecordHead Value) (inherited more : List Value) (bs : Bytes), head.type = type →
        fieldsCanonicalBy (fun t => t.hasSurrogate = false) Layout.canRead base.fields inherited →
        (Value.record head (inherited ++ more)).toBytes config = .ok bs →
        base.hides .fromBytes = false → base.isInstantiable = true →
        ∃ cs ds ws, bs = cs ++ ds ∧ (writeFields config added.flatten more).Writes ds ∧
          Value.AgreeAll inherited ws ∧
          ((∀ v ∈ inherited, v.isFreeOfNaN = true) → Value.equalAll inherited ws = true) ∧
          (config.strict = false ∨ ds = [] → base.fromBytes config bs = .ok (.newRecord base ws)) ∧
          (config.strict = true →
            ((∃ e, base.fromBytes config bs = .error e ∧ e.HasClass .malformedInput) ↔ ds ≠ [])) := by
  obtain ⟨parts, hparts⟩ := RecordTerm.exists_lineage_of_declareAll hp hts hl _ htype
  refine ⟨⟨parts, hparts, hparts.fields_eq⟩, hparts.nodup, fun base added hd => ⟨hd.fields_eq, ?_⟩⟩
  intro head inherited more bs ht hc hbytes hshown hmade
  obtain ⟨-, hw⟩ := Value.toBytes_eq_ok_iff.1 hbytes
  obtain ⟨cs, ds, ws, rfl, hspells, hds, hagrees⟩ := exists_spells_base ht hd.fields_eq hc hw
  have hread := fromBytes_append hshown hmade hspells ds
  refine ⟨cs, ds, ws, rfl, hds, hagrees, fun hn => ?_, fun h => ?_, fun hs => ?_⟩
  · exact Value.equalAll_of_agreeAll (Value.everyOf_eq_true.2 hn) hagrees
  · rw [hread, if_neg]
    rintro ⟨hs, hne⟩
    rcases h with hl | rfl
    · simp [hl] at hs
    · exact hne rfl
  · by_cases hne : ds = []
    · rw [hread]
      simp [hne]
    · rw [if_pos ⟨hs, hne⟩] at hread
      exact iff_of_true ⟨_, hread, _, _, _, rfl⟩ hne

namespace Derived

def declarations : List RecordTerm :=
  [⟨"Empty", none, none, []⟩, ⟨"B", none, none, [⟨"x", .layout (.named "int16"), none⟩]⟩,
    ⟨"D", some "B", none, [⟨"e", .recordType "Empty", none⟩]⟩,
    ⟨"E", some "D", none, [⟨"n", .layout (.named "uint8"), none⟩]⟩]

def empty : RecordType := ⟨⟨1, "Empty"⟩, "Empty", "Empty", [], []⟩

def number : Field := ⟨"x", .primitive (.int ⟨.w16, true⟩), none⟩

def nothing : Field := ⟨"e", .record empty, none⟩

def byte : Field := ⟨"n", .primitive (.int .uint8), none⟩

def first : RecordType := ⟨⟨2, "B"⟩, "B", "B", [], [number]⟩

def second : RecordType := ⟨⟨3, "D"⟩, "D", "D", [⟨2, "B"⟩], [number, nothing]⟩

def third : RecordType := ⟨⟨4, "E"⟩, "E", "E", [⟨3, "D"⟩, ⟨2, "B"⟩], [number, nothing, byte]⟩

def declared : List (Text × RecordType) :=
  [("E", third), ("D", second), ("B", first), ("Empty", empty)]

theorem declareAll_declarations : RecordTerm.declareAll [] declarations = .ok declared := by
  rfl

theorem isPlain_declarations : ∀ t ∈ declarations, t.isPlain = true := by
  decide

theorem extends_first : RecordTerm.Extends first [nothing] second :=
  ⟨fun name => declared.lookup name, .empty, 3,
    ⟨"D", some "B", none, [⟨"e", .recordType "Empty", none⟩]⟩, "B", rfl, rfl, rfl, rfl, rfl⟩

theorem extends_second : RecordTerm.Extends second [byte] third :=
  ⟨fun name => declared.lookup name, .empty, 4,
    ⟨"E", some "D", none, [⟨"n", .layout (.named "uint8"), none⟩]⟩, "D", rfl, rfl, rfl, rfl, rfl⟩

theorem writes_number {config : Config} (h : config.byteOrder = .big) :
    (number.layout.write config (.int (-2))).Writes [0xFF, 0xFE] := by
  rw [number, Layout.write_primitive, Primitive.writes_int, h]
  exact ⟨rfl, rfl⟩

theorem writes_nothing (config : Config) :
    (nothing.layout.write config (.newRecord empty [])).Writes [] :=
  Layout.writes_newRecord.2 ⟨rfl, rfl, Output.writes_empty.2 rfl⟩

theorem writes_byte {config : Config} (h : config.byteOrder = .big) :
    (byte.layout.write config (.int 7)).Writes [7] := by
  rw [byte, Layout.write_primitive, Primitive.writes_int, h]
  exact ⟨rfl, rfl⟩

end Derived

open Derived

/-- In strict mode the first type reads a record of the second, but none of the third, which it reads
otherwise. -/
theorem fromBytes_descendant_chain :
    let lenient : Config := { byteOrder := .big }
    let strict : Config := { byteOrder := .big, strict := true }
    let v : Value := .newRecord second [.int (-2), .newRecord empty []]
    let w : Value := .newRecord third [.int (-2), .newRecord empty [], .int 7]
    ((∀ t ∈ declarations, t.isPlain = true) ∧
      RecordTerm.declareAll [] declarations = .ok declared ∧
      Descends first second [[nothing]] ∧ Descends first third [[nothing], [byte]] ∧
      first.hides .fromBytes = false ∧ first.isInstantiable = true ∧
      fieldsCanonicalBy (fun t => t.hasSurrogate = false) Layout.canRead first.fields [.int (-2)]) ∧
    third.fields = [number] ++ [nothing, byte] ∧ third.fieldNames.Nodup ∧
    (v.toBytes strict = .ok [0xFF, 0xFE] ∧ ∃ ws, Value.AgreeAll [.int (-2)] ws ∧
      first.fromBytes strict [0xFF, 0xFE] = .ok (.newRecord first ws)) ∧
    (w.toBytes strict = .ok [0xFF, 0xFE, 7] ∧
      ∃ e, first.fromBytes strict [0xFF, 0xFE, 7] = .error e ∧ e.HasClass .malformedInput) ∧
    w.toBytes lenient = .ok [0xFF, 0xFE, 7] ∧ ∃ ws, Value.AgreeAll [.int (-2)] ws ∧
      first.fromBytes lenient [0xFF, 0xFE, 7] = .ok (.newRecord first ws) := by
  intro lenient strict v w
  have hnone : ∀ p ∈ ([] : List (Text × RecordType)), ∃ parts, Lineage p.2 parts := by simp
  have hd : Descends first second [[nothing]] := Descends.self.next extends_first
  have hd' : Descends first third [[nothing], [byte]] := hd.next extends_second
  have hc : fieldsCanonicalBy (fun t => t.hasSurrogate = false) Layout.canRead first.fields
      [.int (-2)] := ⟨_, _, rfl, ⟨_, rfl⟩, rfl⟩
  have hnothing : (writeFields strict [nothing] [.newRecord empty []]).Writes [] :=
    writes_fields_cons.2 ⟨[], [], rfl, writes_nothing strict, Output.writes_empty.2 rfl⟩
  have hbyte : ∀ config : Config, config.byteOrder = .big →
      (writeFields config [nothing, byte] [.newRecord empty [], .int 7]).Writes [7] :=
    fun config h => writes_fields_cons.2 ⟨[], [7], rfl, writes_nothing config,
      writes_fields_cons.2 ⟨[7], [], rfl, writes_byte h, Output.writes_empty.2 rfl⟩⟩
  have hv : v.toBytes strict = .ok [0xFF, 0xFE] := Value.toBytes_eq_ok_iff.2
    ⟨rfl, Value.writes_encode_iff.2
      ⟨rfl, writes_fields_cons.2 ⟨_, _, rfl, writes_number rfl, hnothing⟩⟩⟩
  have hw : ∀ config : Config, config.byteOrder = .big → w.toBytes config = .ok [0xFF, 0xFE, 7] :=
    fun config h => Value.toBytes_eq_ok_iff.2 ⟨rfl, Value.writes_encode_iff.2
      ⟨rfl, writes_fields_cons.2 ⟨_, _, rfl, writes_number h, hbyte config h⟩⟩⟩
  have hmem : (("D" : Text), second) ∈ declared ∧ (("E" : Text), third) ∈ declared := by
    simp [declared]
  obtain ⟨-, -, hsecond⟩ := fromBytes_descendant strict hnone isPlain_declarations
    declareAll_declarations hmem.1
  obtain ⟨-, hnames, hthird⟩ := fromBytes_descendant strict hnone isPlain_declarations
    declareAll_declarations hmem.2
  obtain ⟨-, -, hthird'⟩ := fromBytes_descendant lenient hnone isPlain_declarations
    declareAll_declarations hmem.2
  obtain ⟨-, hsecond⟩ := hsecond first _ hd
  obtain ⟨hfields, hthird⟩ := hthird first _ hd'
  obtain ⟨-, hthird'⟩ := hthird' first _ hd'
  refine ⟨⟨isPlain_declarations, declareAll_declarations, hd, hd', rfl, rfl, hc⟩, hfields, hnames,
    ⟨hv, ?_⟩, ⟨hw strict rfl, ?_⟩, hw lenient rfl, ?_⟩
  · obtain ⟨_, ds, ws, -, hds, hagrees, -, hread, -⟩ :=
      hsecond { type := second } [.int (-2)] [.newRecord empty []] _ rfl hc hv rfl rfl
    exact ⟨ws, hagrees, hread (.inr (hds.unique hnothing))⟩
  · obtain ⟨_, ds, _, -, hds, -, -, -, hrefused⟩ :=
      hthird { type := third } [.int (-2)] [.newRecord empty [], .int 7] _ rfl hc (hw strict rfl) rfl
        rfl
    refine (hrefused rfl).2 ?_
    rw [hds.unique (hbyte strict rfl)]
    simp
  · obtain ⟨_, _, ws, -, -, hagrees, -, hread, -⟩ :=
      hthird' { type := third } [.int (-2)] [.newRecord empty [], .int 7] _ rfl hc (hw lenient rfl)
        rfl rfl
    exact ⟨ws, hagrees, hread (.inl rfl)⟩

/-- Types that do not read the records of a type on top of them: one with a field that has the name
of the operation, one with a record whose type hides how it is read, and one with a list of records
whose least size is hidden. The fields of a type with a field of that name cannot be asked for. A field
with two names is known by the second, and a type that binds the name of its fields loses those of its
base. -/
theorem fromBytes_descendant_hidden :
    let layout : Codec := .primitive (.int .uint8)
    let kind : FieldKind := .layout (.named "uint8")
    let part (name : Text) : RecordType := ⟨⟨1, "R"⟩, "R", "R", [], [⟨name, layout, none⟩]⟩
    let base (field : Field) : RecordType := ⟨⟨2, "B"⟩, "B", "B", [], [field]⟩
    let type (field : Field) : RecordType :=
      ⟨⟨3, "D"⟩, "D", "D", [⟨2, "B"⟩], [field, ⟨"b", layout, none⟩]⟩
    let declared (name : Text) (term : FieldTerm) : Except WireError (List (Text × RecordType)) :=
      RecordTerm.declareAll [] [⟨"R", none, none, [⟨name, kind, none⟩]⟩, ⟨"B", none, none, [term]⟩,
        ⟨"D", some "B", none, [⟨"b", kind, none⟩]⟩]
    let table (name : Text) (field : Field) : List (Text × RecordType) :=
      [("D", type field), ("B", base field), ("R", part name)]
    let canonical (field : Field) (v : Value) : Prop :=
      (type field).CanonicalBy (fun t => t.hasSurrogate = false) (fun _ => true)
        (.newRecord (type field) [v, .int 6])
    let hidden : Field := ⟨"from_bytes", layout, none⟩
    let unread : Field := ⟨"r", .record (part "read_data"), none⟩
    let unsized : Field := ⟨"r", .list (.record (part "min_encoded_size")), none⟩
    (declared "x" ⟨"from_bytes", kind, none⟩ = .ok (table "x" hidden) ∧ canonical hidden (.int 5) ∧
      (Value.newRecord (type hidden) [.int 5, .int 6]).toBytes {} = .ok [5, 6] ∧
      ¬ ∃ w, (base hidden).fromBytes {} [5, 6] = .ok w) ∧
    (declared "read_data" ⟨"r", .recordType "R", none⟩ = .ok (table "read_data" unread) ∧
      canonical unread (.newRecord (part "read_data") [.int 5]) ∧
      (Value.newRecord (type unread) [.newRecord (part "read_data") [.int 5], .int 6]).toBytes {} =
        .ok [5, 6] ∧
      ¬ ∃ w, (base unread).fromBytes {} [5, 6] = .ok w) ∧
    (declared "min_encoded_size" ⟨"r", .layout (.list (.record "R")), none⟩ =
        .ok (table "min_encoded_size" unsized) ∧
      canonical unsized (.list []) ∧
      (Value.newRecord (type unsized) [.list [], .int 6]).toBytes {} = .ok [0, 0, 0, 0, 6] ∧
      ¬ ∃ w, (base unsized).fromBytes {} [0, 0, 0, 0, 6] = .ok w) ∧
    declared "fields" ⟨"r", .recordType "R", none⟩ =
        .ok (table "fields" ⟨"r", .record (part "fields"), none⟩) ∧
      (part "fields").hides .fields = true ∧
    RecordTerm.declareAll [] [⟨"R", none, none, [⟨"a", kind, none⟩, ⟨"b", .sameAs "a", none⟩]⟩] =
        .ok [("R", ⟨⟨1, "R"⟩, "R", "R", [], [⟨"b", layout, none⟩, ⟨"b", layout, none⟩]⟩)] ∧
    RecordTerm.declareAll [] [⟨"B", none, none, [⟨"a", kind, none⟩]⟩,
        ⟨"D", some "B", none, [⟨"_fields", .empty, none⟩, ⟨"b", kind, none⟩]⟩] =
      .ok [("D", ⟨⟨2, "D"⟩, "D", "D", [⟨1, "B"⟩], [⟨"b", layout, none⟩]⟩),
        ("B", ⟨⟨1, "B"⟩, "B", "B", [], [⟨"a", layout, none⟩]⟩)] := by
  intro layout kind part base type declared table canonical hidden unread unsized
  have hbyte : ∀ {n : Int} {b : UInt8}, IntKind.uint8.holds n = true →
      [b] = Output.intBytes .little .uint8 n → (layout.write {} (.int n)).Writes [b] := by
    intro n b hn hb
    rw [Layout.write_primitive, Primitive.writes_int]
    exact ⟨hn, hb⟩
  have hrest : (writeFields {} [⟨"b", layout, none⟩] [.int 6]).Writes [6] :=
    writes_fields_cons.2 ⟨[6], [], rfl, hbyte rfl rfl, Output.writes_empty.2 rfl⟩
  have hpart : (writeFields {} (part "read_data").fields [.int 5]).Writes [5] :=
    writes_fields_cons.2 ⟨[5], [], rfl, hbyte rfl rfl, Output.writes_empty.2 rfl⟩
  have hrecord := Layout.writes_newRecord.2 ⟨rfl, rfl, hpart⟩
  have hlist : (unsized.layout.write {} (.list [])).Writes [0, 0, 0, 0] :=
    Layout.writes_list.2 ⟨by decide, [], rfl, .nil⟩
  refine ⟨⟨rfl, ?_, ?_, ?_⟩, ⟨rfl, ?_, ?_, ?_⟩, ⟨rfl, ?_, ?_, ?_⟩, rfl, rfl, rfl, rfl⟩
  · exact ⟨_, _, rfl, rfl, _, _, rfl, ⟨_, rfl⟩, _, _, rfl, ⟨_, rfl⟩, rfl⟩
  · exact Value.toBytes_eq_ok_iff.2 ⟨rfl, Value.writes_encode_iff.2
      ⟨rfl, writes_fields_cons.2 ⟨[5], [6], rfl, hbyte rfl rfl, hrest⟩⟩⟩
  · rintro ⟨w, h⟩
    cases h
  · exact ⟨_, _, rfl, rfl, _, _, rfl, ⟨rfl, _, _, rfl, rfl, _, _, rfl, ⟨_, rfl⟩, rfl⟩, _, _, rfl,
      ⟨_, rfl⟩, rfl⟩
  · exact Value.toBytes_eq_ok_iff.2 ⟨rfl, Value.writes_encode_iff.2
      ⟨rfl, writes_fields_cons.2 ⟨[5], [6], rfl, hrecord, hrest⟩⟩⟩
  · rintro ⟨w, h⟩
    cases h
  · exact ⟨_, _, rfl, rfl, _, _, rfl, ⟨rfl, _, rfl, fun _ hx => absurd hx List.not_mem_nil⟩, _, _,
      rfl, ⟨_, rfl⟩, rfl⟩
  · exact Value.toBytes_eq_ok_iff.2 ⟨rfl, Value.writes_encode_iff.2
      ⟨rfl, writes_fields_cons.2 ⟨[0, 0, 0, 0], [6], rfl, hlist, hrest⟩⟩⟩
  · rintro ⟨w, h⟩
    cases h

end RecordLayout

end RecordWire
