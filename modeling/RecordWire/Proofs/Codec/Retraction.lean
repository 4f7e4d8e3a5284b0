import RecordWire.Proofs.Codec.RoundTrip

/-!
What is read can be written again, in no more bytes than it was read from, and is then read as it
was. So writing after reading takes every encoding to one that reading and writing leave as it is.
Where a layout has neither booleans nor maps, every encoding is of that kind already, up to NaN.
-/

namespace RecordWire

open Reader (SpellAll SpellPair)

/-- Whether every value of a layout that has no NaN in it has one spelling only. -/
def Layout.isExact (codec : Codec) : Bool :=
  codec.every fun
    | .primitive .bool | .map _ _ => false
    | _ => true

theorem Layout.isExact_record {type : RecordType} :
    (Layout.record type).isExact = true ↔ ∀ f ∈ type.fields, f.layout.isExact = true := by
  simp [isExact, every, RecordLayout.every_eq_true]

/-- What a value that was read from given bytes is written as. -/
structure Layout.Rewrites (config : Config) (codec : Codec) (v : Value) (bs out : Bytes) :
    Prop where
  writes : (codec.write config v).Writes out
  length_le : out.length ≤ bs.length
  eq_of_exact : codec.isExact = true → v.isFreeOfNaN = true → out = bs

/-- Whatever is read is canonical and can be written again, in no more bytes. -/
def Layout.IsRewritable (config : Config) (codec : Codec) : Prop :=
  ∀ bs v, v.hasNoNaNKey = true → codec.Spells config.byteOrder config.encoding bs v →
    codec.Recovers config.encoding v ∧ ∃ out, codec.Rewrites config v bs out

variable {config : Config} {bs : Bytes} {v : Value}

theorem Primitive.Canonical.isFreeOfNaN_iff {text : Text → Prop} {p : Primitive}
    (h : p.Canonical text v) : v.isFreeOfNaN = true ↔ v.isNaN = false := by
  obtain ⟨a, rfl⟩ := h.exists_atom
  simp [Value.isFreeOfNaN, Value.every]

theorem Layout.isRewritable_primitive (p : Primitive) (ht : config.encoding.isTotal = true) :
    (Layout.primitive p).IsRewritable config := by
  intro bs v _ h
  obtain ⟨hc, out, hw, hle, he⟩ := Primitive.exists_writes_of_spells ht h
  refine ⟨hc, out, by rwa [write_primitive], hle, fun hexact hn => ?_⟩
  refine he ?_ (hc.isFreeOfNaN_iff.1 hn)
  rintro rfl
  cases hexact

theorem Layout.isRewritable_list {element : Codec} (ih : element.IsRewritable config) :
    (Layout.list element).IsRewritable config := by
  rintro bs v hn ⟨hsized, body, items, hl, rfl, hitems, rfl⟩
  simp only [Value.hasNoNaNKey, Value.every, Bool.true_and, Value.everyOf_eq_true] at hn
  have hcanonical : ∀ x ∈ items, element.Recovers config.encoding x := by
    intro x hx
    obtain ⟨cs, hcs⟩ := hitems.exists_of_mem hx
    exact (ih cs x (hn x hx) hcs).1
  obtain ⟨out, hout, hle, he⟩ := hitems.exists_not_longer
    (S := fun cs x => (element.write config x).Writes cs)
    (E := fun x => element.isExact = true ∧ x.isFreeOfNaN = true) fun cs x hx hcs => by
      obtain ⟨ds, hds⟩ := (ih cs x (hn x hx) hcs).2
      exact ⟨ds, hds.writes, hds.length_le, fun hx => hds.eq_of_exact hx.1 hx.2⟩
  refine ⟨⟨hsized, items, rfl, hcanonical⟩, _, writes_list.2 ⟨hl, out, rfl, hout⟩, ?_, ?_⟩
  · simpa using hle
  · intro hexact hfree
    simp only [Value.isFreeOfNaN, Value.every, Bool.and_eq_true, Value.everyOf_eq_true] at hfree
    rw [he fun x hx => ⟨hexact, hfree.2 x hx⟩]

theorem Layout.exists_writes_entry {key : Primitive} {value : Codec} {e : Value × Value}
    (ht : config.encoding.isTotal = true) (ih : value.IsRewritable config)
    (hn : e.2.hasNoNaNKey = true)
    (h : SpellPair (key.Spells config.byteOrder config.encoding)
      (value.Spells config.byteOrder config.encoding) bs e) :
    key.Canonical config.encoding.Recovers e.1 ∧ value.Recovers config.encoding e.2 ∧
      ∃ out, EntryWrites config key value out e ∧ out.length ≤ bs.length := by
  obtain ⟨ks, vs, rfl, hks, hvs⟩ := h
  obtain ⟨hk, ks', hks', hkle, -⟩ := Primitive.exists_writes_of_spells ht hks
  obtain ⟨hv, vs', hvs'⟩ := ih vs e.2 hn hvs
  have hvle := hvs'.length_le
  refine ⟨hk, hv, ks' ++ vs', ⟨ks', vs', rfl, hks', hvs'.writes⟩, ?_⟩
  simp only [List.length_append]
  omega

/-- Putting in the entries drops those whose key comes again, and sorting leaves their number and
length as they are; so what is written is no longer than what was read. -/
theorem Layout.isRewritable_map (key : Primitive) {value : Codec}
    (ht : config.encoding.isTotal = true) (ih : value.IsRewritable config) :
    (Layout.map key value).IsRewritable config := by
  rintro bs v hn ⟨hsized, body, pairs, hl, rfl, hpairs, rfl⟩
  obtain ⟨body', hentries, hle, hlen⟩ := Reader.exists_spellAll_ofPairs hpairs
  have hdistinct := Value.distinct_ofPairs pairs
  generalize Value.ofPairs pairs = entries at hn hentries hlen hdistinct
  simp only [Value.hasNoNaNKey, Value.every, Bool.and_eq_true, Value.everyOfEntries_eq_true,
    List.all_eq_true, Bool.not_eq_true'] at hn
  have hcanonical : ∀ e ∈ entries, key.CanonicalKey config.encoding.Recovers e.1 ∧
      value.Recovers config.encoding e.2 := by
    intro e he
    obtain ⟨cs, hcs⟩ := hentries.exists_of_mem he
    obtain ⟨hk, hv, -⟩ := exists_writes_entry ht ih (hn.2 e he).2 hcs
    exact ⟨⟨hk, hn.1 e he⟩, hv⟩
  have hkeys := fun e he => (hcanonical e he).1
  obtain ⟨arranged, ha, hperm, -⟩ := arrangeEntries_eq config hkeys
  obtain ⟨body'', harranged, hlength⟩ := hentries.exists_perm hperm.symm
  obtain ⟨out, hout, hle', -⟩ := harranged.exists_not_longer
    (S := EntryWrites config key value)
    (E := fun _ => False) fun cs e he hcs => by
      obtain ⟨-, -, ds, hds, hdle⟩ :=
        exists_writes_entry ht ih (hn.2 e (hperm.mem_iff.1 he)).2 hcs
      exact ⟨ds, hds, hdle, False.elim⟩
  have harrangedLength := hperm.length_eq
  refine ⟨⟨hsized, entries, rfl, hdistinct, hcanonical⟩, _,
    (writes_map rfl).2 ⟨arranged, ha, by omega, out, rfl, hout⟩, ?_, fun hexact => ?_⟩
  · simp only [List.length_append, ByteOrder.length_countBytes]
    omega
  · cases hexact

theorem rewrites_fields {fields : List Field}
    (ih : ∀ f ∈ fields, f.layout.IsRewritable config) {values : List Value}
    (hn : ∀ v ∈ values, v.hasNoNaNKey = true)
    (h : fieldsSpell config.byteOrder config.encoding fields bs values) :
    fieldsCanonicalBy config.encoding.Recovers Layout.canRead fields values ∧
      ∃ out, (writeFields config fields values).Writes out ∧ out.length ≤ bs.length ∧
        ((∀ f ∈ fields, f.layout.isExact = true) → (∀ v ∈ values, v.isFreeOfNaN = true) →
          out = bs) := by
  induction fields generalizing bs values with
  | nil =>
    obtain ⟨rfl, rfl⟩ := h
    exact ⟨rfl, [], Output.writes_empty.2 rfl, Nat.le_refl _, fun _ _ => rfl⟩
  | cons f fields ihs =>
    obtain ⟨cs, ds, v, vs, rfl, rfl, hv, hvs⟩ := fieldsSpell_cons.1 h
    obtain ⟨hnv, hnvs⟩ := List.forall_mem_cons.1 hn
    obtain ⟨hc, out, hout⟩ := ih f List.mem_cons_self cs v hnv hv
    obtain ⟨hcs, outs, hws, hle, he⟩ := ihs (fun g hg => ih g (List.mem_cons_of_mem _ hg)) hnvs hvs
    have hle' := hout.length_le
    refine ⟨fieldsCanonicalBy_cons.2 ⟨v, vs, rfl, hc, hcs⟩, out ++ outs,
      writes_fields_cons.2 ⟨out, outs, rfl, hout.writes, hws⟩, ?_, fun hexact hfree => ?_⟩
    · simp only [List.length_append]
      omega
    · obtain ⟨hf, hfs⟩ := List.forall_mem_cons.1 hexact
      obtain ⟨hfree, hfrees⟩ := List.forall_mem_cons.1 hfree
      rw [hout.eq_of_exact hf hfree, he hfs hfrees]

theorem Layout.isRewritable_record {type : RecordType} (hw : type.hides .writeData = false)
    (ih : ∀ f ∈ type.fields, f.layout.IsRewritable config) :
    (Layout.record type).IsRewritable config := by
  rintro bs v hn ⟨hread, h⟩
  obtain ⟨hf, values, hvalues, rfl⟩ := RecordLayout.spells_iff.1 h
  simp only [Value.hasNoNaNKey, Value.every, Bool.true_and, Value.everyOf_eq_true] at hn
  obtain ⟨hc, out, hout, hle, he⟩ := rewrites_fields ih hn hvalues
  refine ⟨⟨by simp [canRead, hread], ?_⟩, out, writes_newRecord.2 ⟨hw, hf, hout⟩, hle, ?_⟩
  · exact RecordLayout.canonicalBy_iff.2 ⟨_, values, rfl, rfl, hc⟩
  · intro hexact hfree
    simp only [Value.isFreeOfNaN, Value.every, Bool.and_eq_true, Value.everyOf_eq_true] at hfree
    exact he (isExact_record.1 hexact) hfree.2

theorem Layout.isRewritable {codec : Codec} (ht : config.encoding.isTotal = true)
    (hs : codec.shows [.writeData] = true) : codec.IsRewritable config := by
  induction codec using Layout.induct with
  | primitive p => exact isRewritable_primitive p ht
  | rgb565 =>
    intro bs v _ h
    obtain ⟨hc, hw⟩ := writes_of_spells_colour h
    exact ⟨hc, bs, hw, Nat.le_refl _, fun _ _ => rfl⟩
  | list element ih => exact isRewritable_list (ih hs)
  | map key value ih => exact isRewritable_map key ht (ih hs)
  | record type ih =>
    obtain ⟨hw, hfs⟩ := shows_record.1 hs
    exact isRewritable_record (hw _ List.mem_cons_self) fun f hf => ih f hf (hfs f hf)

/-- A value that was read is written in no more bytes than it was read from; from these it is read
again, whatever follows, and they are what it is written as then. They are the bytes it was read
from if the layout has neither booleans nor maps, and the value no NaN. -/
theorem Layout.write_read (config : Config) (codec : Codec) (bs : Bytes) (v : Value) (s : Source)
    (ht : config.encoding.isTotal = true) (hs : codec.shows [.writeData] = true)
    (hr : codec.read config (.ofBytes bs) = .ok v s) (hn : v.hasNoNaNKey = true) :
    ∃ n ≤ bs.length, s = .buffer bs n ∧
      ∃ out, ({} : Sink).take (codec.write config v) = ({ written := out }, none) ∧
        out.length ≤ n ∧
        (∀ more, ∃ w, codec.read config (.ofBytes (out ++ more)) =
            .ok w (.buffer (out ++ more) out.length) ∧ v.Agrees w ∧
          (v.isFreeOfNaN = true → v.equal w = true) ∧
          ({} : Sink).take (codec.write config w) = ({ written := out }, none)) ∧
        (codec.isExact = true → v.isFreeOfNaN = true → out = bs.take n) := by
  rw [Source.ofBytes_eq_amid] at hr
  obtain ⟨used, rest, rfl, rfl, hspells⟩ := (codec.reads config).sound hr
  obtain ⟨hc, out, hout⟩ := isRewritable ht hs used v hn hspells
  obtain ⟨w, hw⟩ := isReturning config codec out v hc hout.writes
  refine ⟨used.length, by simp, rfl, out, hout.writes, hout.length_le, fun more => ?_, ?_⟩
  · exact ⟨w, hw.read more, hw.2.1, fun hfree => Value.equal_of_agrees hfree hw.2.1, hw.2.2⟩
  · rw [List.take_left]
    exact hout.eq_of_exact

theorem Layout.write_read_repeated :
    let config : Config := {}
    let codec : Codec := .map .bool (.primitive .string)
    let bs : Bytes := [3, 0, 0, 0, 2, 1, 0, 0, 0, 0x41, 0, 0, 0, 0, 0, 1, 1, 0, 0, 0, 0xFF, 7]
    let v : Value := .dict [(.bool true, .text [0xDCFF]), (.bool false, .text [])]
    codec.read config (.ofBytes bs) = .ok v (.buffer bs 21) ∧ v.hasNoNaNKey = true ∧
    ∃ n ≤ bs.length, Source.buffer bs 21 = .buffer bs n ∧
      ∃ out, ({} : Sink).take (codec.write config v) = ({ written := out }, none) ∧
        out.length ≤ n ∧
        (∀ more, ∃ w, codec.read config (.ofBytes (out ++ more)) =
            .ok w (.buffer (out ++ more) out.length) ∧ v.Agrees w ∧
          (v.isFreeOfNaN = true → v.equal w = true) ∧
          ({} : Sink).take (codec.write config w) = ({ written := out }, none)) ∧
        (codec.isExact = true → v.isFreeOfNaN = true → out = bs.take n) := by
  intro config codec bs v
  have hv : Value.ofPairs [(.bool true, .text [0x41]), (.bool false, .text []),
      (.bool true, .text [0xDCFF])] = [(.bool true, .text [0xDCFF]), (.bool false, .text [])] := by
    have hother : (Value.bool false).alike (.bool true) = false := by cbv
    have hsame : (Value.bool true).alike (.bool true) = true := by cbv
    simp [Value.ofPairs, Value.assign, hother, hsame]
  have hr : codec.read config (.ofBytes bs) = .ok v (.buffer bs 21) := by
    simp only [v, ← hv]
    rfl
  exact ⟨hr, rfl, Layout.write_read config codec bs v _ rfl rfl hr rfl⟩

/-- A field of a record type that has a field with the name of an operation: the record is read, but
not written. -/
theorem Layout.write_read_hidden :
    let config : Config := {}
    let inner : RecordType :=
      ⟨⟨0, "R"⟩, "R", "R", [], [⟨"write_data", .primitive (.int .uint8), none⟩]⟩
    let outer : RecordType := ⟨⟨0, "S"⟩, "S", "S", [], [⟨"r", .record inner, none⟩]⟩
    let codec : Codec := .record outer
    let v : Value := .newRecord outer [.newRecord inner [.int 5]]
    codec.read config (.ofBytes [5]) = .ok v (.buffer [5] 1) ∧ v.hasNoNaNKey = true ∧
    ¬ ∃ out, ({} : Sink).take (codec.write config v) = ({ written := out }, none) := by
  intro config inner outer codec v
  refine ⟨rfl, rfl, ?_⟩
  rintro ⟨out, h⟩
  obtain ⟨-, -, hfields⟩ := Layout.writes_newRecord.1 h
  obtain ⟨cs, _, -, hr, -⟩ := writes_fields_cons.1 hfields
  have hw : inner.hides .writeData = false := (Layout.writes_newRecord.1 hr).1
  have hh : inner.hides .writeData = true := rfl
  rw [hh] at hw
  cases hw

end RecordWire
