import Mathlib.Algebra.Ring.Nat
import RecordWire.Proofs.Codec.RoundTrip
import RecordWire.Proofs.Wire.Stream
import RecordWire.Service.Basic

/-!
Records one after the other on a stream. A write at the end of a stream puts the bytes of a record
behind those that are there; a read takes as many bytes as the record was written in, whatever follows
them, and leaves the stream right behind it. So what was written one record at a time is read one
record at a time, in the same order, with the types as the only thing that the two sides share.
-/

namespace RecordWire

namespace ByteStream

/-- The stream with more bytes behind those that it has, at its end. -/
def extend (s : ByteStream) (bs : Bytes) : ByteStream :=
  { s with data := s.data ++ bs, pos := (s.data ++ bs).length }

theorem extend_extend (s : ByteStream) (bs cs : Bytes) :
    (s.extend bs).extend cs = s.extend (bs ++ cs) := by
  simp only [extend, List.append_assoc]

variable {s : ByteStream}

theorem extend_nil (h : s.pos = s.data.length) : s.extend [] = s := by
  simp only [extend, List.append_nil, ← h]

theorem write_at_end (h : s.pos = s.data.length) (bs : Bytes) : s.write bs = s.extend bs := by
  cases bs with
  | nil => rw [extend_nil h]; rfl
  | cons b bs =>
    have hdrop : s.data.drop (s.data.length + (b :: bs).length) = [] :=
      List.drop_eq_nil_of_le (by omega)
    simp only [write, extend, h, hdrop, List.append_nil, List.take_length, Nat.sub_self,
      List.replicate_zero, List.isEmpty_cons, Bool.false_eq_true, if_false, List.length_append]

theorem foldl_write_at_end (h : s.pos = s.data.length) (chunks : List Bytes) :
    chunks.foldl write s = s.extend chunks.flatten := by
  induction chunks generalizing s with
  | nil => exact (extend_nil h).symm
  | cons bs chunks ih =>
    rw [List.foldl_cons, write_at_end h, ih rfl, extend_extend, List.flatten_cons]

end ByteStream

variable {config : Config} {bs : Bytes} {type : RecordType} {v : Value} {s : ByteStream}

theorem Value.writes_encode_iff {head : RecordHead Value} {values : List Value} :
    ((Value.record head values).encode config).Writes bs ↔
      head.hides .fields = false ∧ (writeFields config head.type.fields values).Writes bs := by
  rw [encode]
  split
  · rename_i hh
    simp [hh]
  · rename_i hh
    simp [hh]

theorem RecordLayout.exists_spells_of_encode
    (hc : type.CanonicalBy (fun t => t.hasSurrogate = false) Layout.canRead v)
    (hw : (v.encode config).Writes bs) :
    ∃ w, type.Spells config.byteOrder config.encoding bs w ∧ v.Agrees w := by
  obtain ⟨head, values, rfl, ht, hfields⟩ := canonicalBy_iff.1 hc
  obtain ⟨hh, hvalues⟩ := Value.writes_encode_iff.1 hw
  rw [RecordHead.hides, Bool.or_eq_false_iff, ht] at hh
  rw [ht] at hvalues
  obtain ⟨ws, hspells, hagrees⟩ := exists_fields_spell hfields hvalues
  exact ⟨.newRecord type ws, spells_iff.2 ⟨hh.1, ws, hspells, rfl⟩, .record ht hagrees⟩

namespace Service

/-- The record of the type is encoded as bytes that are read as a value that agrees with it. -/
structure Returns (config : Config) (type : RecordType) (v : Value) (bs : Bytes) (w : Value) :
    Prop where
  titled : ∃ title, recordTitle v = .ok title
  writes : (v.encode config).Writes bs
  made : type.isInstantiable = true
  spells : type.Spells config.byteOrder config.encoding bs w
  agrees : v.Agrees w

theorem exists_returns (hs : type.isServed = true)
    (hc : type.CanonicalBy (fun t => t.hasSurrogate = false) Layout.canRead v)
    (he : (v.encode config).error? = none) : ∃ bs w, Returns config type v bs w := by
  have hw := Output.writes_iff.2 ⟨he, rfl⟩
  obtain ⟨w, hspells, hagrees⟩ := RecordLayout.exists_spells_of_encode hc hw
  obtain ⟨head, values, rfl, ht, -⟩ := RecordLayout.canonicalBy_iff.1 hc
  rw [RecordLayout.isServed, Bool.and_eq_true, Bool.not_eq_true'] at hs
  have htitle : recordTitle (.record head values) = .ok (Value.titleOf head) := by
    rw [recordTitle, ht, hs.2]
    rfl
  exact ⟨_, w, ⟨_, htitle⟩, hw, hs.1, hspells, hagrees⟩

/-- Writing a record at the end of a stream puts its bytes there, and returns how many they are. -/
theorem write_at_end {title : Text} (ht : recordTitle v = .ok title)
    (h : (v.encode config).Writes bs) (hs : s.pos = s.data.length) :
    write config s v = (s.extend bs, .ok bs.length) := by
  obtain ⟨he, rfl⟩ := Output.writes_iff.1 h
  simp only [write, ht, he, ByteStream.foldl_write_at_end hs]
  rfl

theorem read_of_spells (hi : type.isInstantiable = true)
    (h : type.Spells config.byteOrder config.encoding bs v) {more : Bytes}
    (hs : s.Supplies (bs ++ more)) :
    read config type s = (.ok v, s.advance bs.length) := by
  have hbuffer : type.read (config.knowing s) (Source.amid [] (bs ++ more)) =
      .ok v (Source.amid ([] ++ bs) more) := (type.reads (config.knowing s)).complete h [] more
  have hfollows : (type.read config).Follows s (bs ++ more) (type.read (config.knowing s)) :=
    RecordLayout.read_follows fun f _ => f.layout.read_follows hs
  obtain ⟨used, after, -, hsource, hstream⟩ := hfollows.ok (List.nil_append _).symm hbuffer
  have hlength : bs.length = used.length := by
    simp only [Source.amid, Source.buffer.injEq, List.nil_append] at hsource
    exact Int.ofNat_inj.1 hsource.2
  change type.read config (.ofStream s) = _ at hstream
  rw [read, RecordLayout.readNew_of_isInstantiable config hi, hstream, List.nil_append, hlength]
  rfl

/-- Writes records to a stream. The results are those of the single writes. -/
def writeAll (config : Config) : ByteStream → List Value →
    ByteStream × List (Except WireError Nat)
  | stream, [] => (stream, [])
  | stream, v :: vs =>
    let (stream, result) := write config stream v
    let (stream, results) := writeAll config stream vs
    (stream, result :: results)

/-- Reads a record of each type from a stream. The results are those of the single reads, each with
the stream as it was then. -/
def readAll (config : Config) : ByteStream → List RecordType →
    List (Except WireError Value × ByteStream)
  | _, [] => []
  | stream, type :: types =>
    let result := read config type stream
    result :: readAll config result.2 types

section

variable {records : List (RecordType × Value)} {parts : List (Bytes × Value)}

/-- Each record is encoded as the bytes of a part, which are read as the value of the part. -/
abbrev ReturnAll (config : Config) : List (RecordType × Value) → List (Bytes × Value) → Prop :=
  List.Forall₂ fun r p => Returns config r.1 r.2 p.1 p.2

theorem exists_returnAll (hs : ∀ r ∈ records, r.1.isServed = true)
    (hc : ∀ r ∈ records, r.1.CanonicalBy (fun t => t.hasSurrogate = false) Layout.canRead r.2)
    (he : ∀ r ∈ records, (r.2.encode config).error? = none) :
    ∃ parts, ReturnAll config records parts := by
  induction records with
  | nil => exact ⟨[], .nil⟩
  | cons r records ih =>
    obtain ⟨hsr, hsrs⟩ := List.forall_mem_cons.1 hs
    obtain ⟨hr, hrs⟩ := List.forall_mem_cons.1 hc
    obtain ⟨her, hers⟩ := List.forall_mem_cons.1 he
    obtain ⟨bs, w, hreturns⟩ := exists_returns hsr hr her
    obtain ⟨parts, hparts⟩ := ih hsrs hrs hers
    exact ⟨(bs, w) :: parts, .cons hreturns hparts⟩

theorem writeAll_at_end (h : ReturnAll config records parts) (hs : s.pos = s.data.length) :
    writeAll config s (records.map (·.2)) =
      (s.extend (parts.map (·.1)).flatten, parts.map fun p => .ok p.1.length) := by
  induction h generalizing s with
  | nil => simp [writeAll, ByteStream.extend_nil hs]
  | @cons r p records parts head tail ih =>
    have hrest := ih (s := s.extend p.1) rfl
    obtain ⟨title, ht⟩ := head.titled
    simp only [List.map_cons, List.flatten_cons, writeAll, write_at_end ht head.writes hs, hrest,
      ByteStream.extend_extend]

theorem readAll_of_supplies (h : ReturnAll config records parts)
    (hs : s.Supplies (parts.map (·.1)).flatten) :
    ∀ i r, records[i]? = some r → ∃ w, r.2.Agrees w ∧
      (readAll config s (records.map (·.1)))[i]? =
        some (.ok w, s.advance ((parts.map (·.1.length)).take (i + 1)).sum) := by
  induction h generalizing s with
  | nil => simp
  | @cons r p records parts head tail ih =>
    rw [List.map_cons, List.flatten_cons] at hs
    have hnext : (s.advance p.1.length).Supplies (parts.map (·.1)).flatten := by
      have hadvance := hs.advance (n := p.1.length) (by simp)
      rwa [List.drop_left] at hadvance
    rintro (_ | i) q hq
    · cases hq
      refine ⟨p.2, head.agrees, ?_⟩
      simp [readAll, read_of_spells head.made head.spells hs]
    · obtain ⟨w, hagrees, hread⟩ := ih hnext i q hq
      refine ⟨w, hagrees, ?_⟩
      simp only [List.map_cons, readAll, read_of_spells head.made head.spells hs, List.getElem?_cons_succ,
        hread, ByteStream.advance_advance, List.take_succ_cons, List.sum_cons]

end

/-- Canonical records that can be encoded, and that nothing in them or in their types keeps from being
read, are written to an empty stream one by one. From its beginning they are read one
by one with their types: what is read agrees with what was written, and each read leaves the stream
at the sum of the counts that the writes returned up to there. All counts together are all there is. -/
theorem readAll_writeAll (config : Config) (records : List (RecordType × Value))
    (hs : ∀ r ∈ records, r.1.isServed = true)
    (hc : ∀ r ∈ records, r.1.CanonicalBy (fun t => t.hasSurrogate = false) Layout.canRead r.2)
    (he : ∀ r ∈ records, (r.2.encode config).error? = none) :
    ∃ (stream : ByteStream) (counts : List Nat),
      writeAll config { data := [], pos := 0 } (records.map (·.2)) = (stream, counts.map .ok) ∧
      counts.length = records.length ∧ counts.sum = stream.data.length ∧
      ∀ i r, records[i]? = some r → ∃ w,
        (readAll config { stream with pos := 0 } (records.map (·.1)))[i]? =
          some (.ok w, { stream with pos := (counts.take (i + 1)).sum }) ∧
        r.2.Agrees w ∧ (r.2.isFreeOfNaN = true → r.2.equal w = true) := by
  obtain ⟨parts, hparts⟩ := exists_returnAll hs hc he
  have hwrite := writeAll_at_end (s := { data := [], pos := 0 }) hparts rfl
  refine ⟨ByteStream.extend { data := [], pos := 0 } (parts.map (·.1)).flatten,
    parts.map (·.1.length), ?_, ?_, ?_, fun i r hr => ?_⟩
  · rw [hwrite, List.map_map]
    rfl
  · rw [List.length_map, hparts.length_eq]
  · simp [ByteStream.extend, List.length_flatten, Function.comp_def]
  · obtain ⟨w, hagrees, hread⟩ := readAll_of_supplies hparts
      (s := { data := (parts.map (·.1)).flatten, pos := 0 })
      ⟨Nat.zero_le _, rfl, fun _ _ ha => ha⟩ i r hr
    refine ⟨w, ?_, hagrees, fun hn => Value.equal_of_agrees hn hagrees⟩
    rw [ByteStream.advance, Nat.zero_add] at hread
    exact hread

namespace Sample

def point : RecordType :=
  ⟨⟨0, "Point"⟩, "Point", "Point", [], [⟨"x", .primitive (.int ⟨.w16, true⟩), none⟩]⟩

def path : RecordType :=
  ⟨⟨1, "Path"⟩, "Path", "Path", [], [⟨"name", .primitive .string, none⟩,
    ⟨"points", .list (.record point), none⟩]⟩

def records : List (RecordType × Value) :=
  [(path, .newRecord path [.text [0x61], .list [.newRecord point [.int (-2)]]]),
    (point, .newRecord point [.int 5])]

end Sample

open Sample

/-- Two records of different types, the first with a list of records of the second. -/
theorem readAll_writeAll_strict :
    let config : Config := { byteOrder := .big, strict := true, encoding := .utf16le }
    (∀ r ∈ records, r.1.isServed = true) ∧
    (∀ r ∈ records, r.1.CanonicalBy (fun t => t.hasSurrogate = false) Layout.canRead r.2) ∧
    (∀ r ∈ records, (r.2.encode config).error? = none) ∧
    ∃ (stream : ByteStream) (counts : List Nat),
      writeAll config { data := [], pos := 0 } (records.map (·.2)) = (stream, counts.map .ok) ∧
      counts.length = records.length ∧ counts.sum = stream.data.length ∧
      ∀ i r, records[i]? = some r → ∃ w,
        (readAll config { stream with pos := 0 } (records.map (·.1)))[i]? =
          some (.ok w, { stream with pos := (counts.take (i + 1)).sum }) ∧
        r.2.Agrees w ∧ (r.2.isFreeOfNaN = true → r.2.equal w = true) := by
  intro config
  have hc : ∀ r ∈ records,
      r.1.CanonicalBy (fun t => t.hasSurrogate = false) Layout.canRead r.2 := by
    simp only [records, List.forall_mem_cons, List.not_mem_nil, false_imp_iff, implies_true,
      and_true]
    refine ⟨⟨_, _, rfl, rfl, ?_⟩, ⟨_, _, rfl, rfl, _, _, rfl, ⟨_, rfl⟩, rfl⟩⟩
    refine ⟨_, _, rfl, ⟨_, rfl, rfl⟩, _, _, rfl, ⟨rfl, _, rfl, ?_⟩, rfl⟩
    exact List.forall_mem_singleton.2 ⟨rfl, _, _, rfl, rfl, _, _, rfl, ⟨_, rfl⟩, rfl⟩
  have hpoint : ∀ n, writeFields config point.fields [.int n] =
      (Primitive.int ⟨.w16, true⟩).write config (.int n) := by
    intro n
    simp only [writeFields, point, List.zip_cons_cons, List.zip_nil_right, List.map,
      Layout.write_primitive]
    exact Output.append_empty _
  have hrecord : (Layout.record point).write config (.newRecord point [.int (-2)]) =
      ⟨[[0xFF, 0xFE]], none⟩ := by
    rw [Layout.write_record, hpoint]
    rfl
  have he : ∀ r ∈ records, (r.2.encode config).error? = none := by
    simp only [records, List.forall_mem_cons, List.not_mem_nil, false_imp_iff, implies_true,
      and_true]
    constructor
    · simp only [Value.encode, writeFields, path, List.zip_cons_cons, List.zip_nil_right, List.map,
        Layout.write_primitive, Layout.write_list, Value.items, Value.parts?, hrecord]
      rfl
    · simp only [Value.encode, hpoint]
      rfl
  have hs : ∀ r ∈ records, r.1.isServed = true := by decide
  exact ⟨hs, hc, he, readAll_writeAll config records hs hc he⟩

/-- Records whose fields are of types with a field that has the name of an operation: a record of such
a type, and an empty list of them. Both are written, but neither is read. -/
theorem readAll_writeAll_hidden :
    let named (name : Text) : RecordType :=
      ⟨⟨0, "R"⟩, "R", "R", [], [⟨name, .primitive (.int .uint8), none⟩]⟩
    let holder (layout : Codec) : RecordType := ⟨⟨1, "S"⟩, "S", "S", [], [⟨"r", layout, none⟩]⟩
    let direct := holder (.record (named "read_data"))
    let listed := holder (.list (.record (named "min_encoded_size")))
    let v : Value := .newRecord direct [.newRecord (named "read_data") [.int 5]]
    let w : Value := .newRecord listed [.list []]
    (direct.CanonicalBy (fun t => t.hasSurrogate = false) (fun _ => true) v ∧
      writeAll {} { data := [], pos := 0 } [v] = ({ data := [5], pos := 1 }, [.ok 1]) ∧
      ¬ ∃ x s, read {} direct { data := [5], pos := 0 } = (.ok x, s)) ∧
    listed.CanonicalBy (fun t => t.hasSurrogate = false) (fun _ => true) w ∧
      writeAll {} { data := [], pos := 0 } [w] = ({ data := [0, 0, 0, 0], pos := 4 }, [.ok 4]) ∧
      ¬ ∃ x s, read {} listed { data := [0, 0, 0, 0], pos := 0 } = (.ok x, s) := by
  intro named holder direct listed v w
  refine ⟨⟨?_, ?_, ?_⟩, ?_, ?_, ?_⟩
  · exact ⟨_, _, rfl, rfl, _, _, rfl, ⟨rfl, _, _, rfl, rfl, _, _, rfl, ⟨_, rfl⟩, rfl⟩, rfl⟩
  · have hinner : (writeFields {} (named "read_data").fields [.int 5]).Writes [5] := by
      simp only [writeFields, named, List.zip_cons_cons, List.zip_nil_right, List.map,
        Layout.write_primitive]
      exact Output.writes_iff.2 ⟨rfl, rfl⟩
    have hfield := Layout.writes_newRecord.2 ⟨rfl, rfl, hinner⟩
    have hencode : (v.encode {}).Writes [5] := Value.writes_encode_iff.2
      ⟨rfl, writes_fields_cons.2 ⟨_, [], rfl, hfield, Output.writes_empty.2 rfl⟩⟩
    rw [writeAll, write_at_end rfl hencode rfl]
    rfl
  · rintro ⟨x, s, h⟩
    cases h
  · exact ⟨_, _, rfl, rfl, _, _, rfl, ⟨rfl, _, rfl, fun _ hx => absurd hx List.not_mem_nil⟩, rfl⟩
  · have hfield : ((Layout.list (.record (named "min_encoded_size"))).write {} (.list [])).Writes
        [0, 0, 0, 0] := Layout.writes_list.2 ⟨by decide, [], rfl, .nil⟩
    have hencode : (w.encode {}).Writes [0, 0, 0, 0] := Value.writes_encode_iff.2
      ⟨rfl, writes_fields_cons.2 ⟨_, [], rfl, hfield, Output.writes_empty.2 rfl⟩⟩
    rw [writeAll, write_at_end rfl hencode rfl]
    rfl
  · rintro ⟨x, s, h⟩
    cases h

end Service

end RecordWire
