import RecordWire.Proofs.Codec.Scalar
import RecordWire.Proofs.Wire.Decision
import RecordWire.Proofs.Wire.Sequence

/-!
Whatever is written of a canonical value is read again, as a value that agrees with it. The
induction is over the layout; what carries it is that the value that comes back is written in the
same bytes, since its map entries come back in the order in which they were written.
-/

namespace RecordWire

open Reader (SpellAll SpellPair)

namespace Value

variable {α : Type} {xs : List α}

theorem agreeAll_map {f g : α → Value} (h : ∀ x ∈ xs, (f x).Agrees (g x)) :
    AgreeAll (xs.map f) (xs.map g) := by
  induction xs with
  | nil => exact .nil
  | cons x xs ih =>
    obtain ⟨hx, hxs⟩ := List.forall_mem_cons.1 h
    exact .cons hx (ih hxs)

theorem agreeEntries_map {f g : α → Value × Value}
    (h : ∀ x ∈ xs, (f x).1.Agrees (g x).1 ∧ (f x).2.Agrees (g x).2) :
    AgreeEntries (xs.map f) (xs.map g) := by
  induction xs with
  | nil => exact .nil
  | cons x xs ih =>
    obtain ⟨hx, hxs⟩ := List.forall_mem_cons.1 h
    exact .cons hx.1 hx.2 (ih hxs)

end Value

variable {config : Config} {bs : Bytes} {v : Value}

theorem Layout.writes_items {element : Codec} {items : List Value}
    (hv : v.items (Layout.list element).name = .ok items) :
    ((Layout.list element).write config v).Writes bs ↔ items.length < 2 ^ 32 ∧
      ∃ body, bs = config.byteOrder.countBytes items.length ++ body ∧
        SpellAll (fun cs x => (element.write config x).Writes cs) body items := by
  rw [write_list, hv]
  simp only [Output.writes_counted, Output.writes_concat]

theorem Layout.writes_list {element : Codec} {items : List Value} :
    ((Layout.list element).write config (.list items)).Writes bs ↔ items.length < 2 ^ 32 ∧
      ∃ body, bs = config.byteOrder.countBytes items.length ++ body ∧
        SpellAll (fun cs x => (element.write config x).Writes cs) body items :=
  writes_items rfl

abbrev Layout.EntryWrites (config : Config) (key : Primitive) (value : Codec) :
    Bytes → Value × Value → Prop :=
  SpellPair (fun cs k => (key.write config k).Writes cs)
    fun cs x => (value.write config x).Writes cs

theorem Layout.writes_map {key : Primitive} {value : Codec} {pairs : List (Value × Value)}
    (hv : v.pairs = .ok pairs) :
    ((Layout.map key value).write config v).Writes bs ↔
      ∃ arranged, arrangeEntries config pairs = some arranged ∧ arranged.length < 2 ^ 32 ∧
        ∃ body, bs = config.byteOrder.countBytes arranged.length ++ body ∧
          SpellAll (EntryWrites config key value) body arranged := by
  have hbody : ∀ (arranged : List (Value × Value)) body, (Output.concat (arranged.map fun e =>
      key.write config e.1 ++ value.write config e.2)).Writes body ↔
      SpellAll (EntryWrites config key value) body arranged := by
    intro arranged body
    simp only [Output.writes_concat, Output.writes_append]
    rfl
  rw [write_map, hv]
  simp only [writeEntries]
  rw [arrangeEntries_map pairs fun e => key.write config e.1 ++ value.write config e.2]
  cases arrangeEntries config pairs with
  | none => simp
  | some arranged =>
    simp only [Option.map_some, List.map_map, List.length_map, Function.comp_def,
      Option.some.injEq, exists_eq_left', Output.writes_counted, hbody]

theorem RecordLayout.isKindOf_self (type : RecordType) : type.isKindOf type = true := by
  simp [isKindOf]

theorem Layout.writes_record {type : RecordType} {head : RecordHead Value}
    {values : List Value} (ht : head.type = type) :
    ((Layout.record type).write config (.record head values)).Writes bs ↔
      head.hides .writeData = false ∧ head.hides .fields = false ∧
        (writeFields config type.fields values).Writes bs := by
  subst ht
  rw [write_record, if_pos (RecordLayout.isKindOf_self head.type)]
  split
  · rename_i hh
    rw [Bool.or_eq_true] at hh
    simp only [Output.not_writes_fail, false_iff]
    rintro ⟨hw, hf, -⟩
    simp [hw, hf] at hh
  · rename_i hh
    rw [Bool.not_eq_true, Bool.or_eq_false_iff] at hh
    simp [hh.1, hh.2]

theorem Layout.writes_newRecord {type : RecordType} {values : List Value} :
    ((Layout.record type).write config (.newRecord type values)).Writes bs ↔
      type.hides .writeData = false ∧ type.hides .fields = false ∧
        (writeFields config type.fields values).Writes bs := by
  have ht : ({ type := type } : RecordHead Value).type = type := rfl
  refine (writes_record ht).trans ?_
  simp [RecordHead.hides]

theorem writes_fields_cons {f : Field} {fields : List Field} {v : Value} {vs : List Value} :
    (writeFields config (f :: fields) (v :: vs)).Writes bs ↔ ∃ cs ds, bs = cs ++ ds ∧
      (f.layout.write config v).Writes cs ∧ (writeFields config fields vs).Writes ds :=
  Output.writes_append

/-- Whatever is written of a value that can be recovered is read as a value that agrees with it and
is written alike. -/
def Layout.IsReturning (config : Config) (codec : Codec) : Prop :=
  ∀ bs v, codec.Recovers config.encoding v → (codec.write config v).Writes bs →
    ∃ w, codec.Returns config bs v w

theorem exists_fields_returns {fields : List Field}
    (ih : ∀ f ∈ fields, f.layout.IsReturning config) {values : List Value}
    (hc : fieldsCanonicalBy config.encoding.Recovers Layout.canRead fields values)
    (hw : (writeFields config fields values).Writes bs) :
    ∃ ws, fieldsSpell config.byteOrder config.encoding fields bs ws ∧
      Value.AgreeAll values ws ∧ (writeFields config fields ws).Writes bs := by
  induction fields generalizing bs values with
  | nil =>
    obtain rfl := hc
    exact ⟨[], ⟨Output.writes_empty.1 hw, rfl⟩, .nil, hw⟩
  | cons f fields ihs =>
    obtain ⟨v, vs, rfl, hv, hvs⟩ := fieldsCanonicalBy_cons.1 hc
    obtain ⟨cs, ds, rfl, hcs, hds⟩ := writes_fields_cons.1 hw
    obtain ⟨w, hspell, hagree, hwrite⟩ := ih f List.mem_cons_self cs v hv hcs
    obtain ⟨ws, hspells, hagrees, hwrites⟩ :=
      ihs (fun g hg => ih g (List.mem_cons_of_mem _ hg)) hvs hds
    refine ⟨w :: ws, fieldsSpell_cons.2 ⟨cs, ds, w, ws, rfl, rfl, hspell, hspells⟩, ?_, ?_⟩
    · exact .cons hagree hagrees
    · exact writes_fields_cons.2 ⟨cs, ds, rfl, hwrite, hwrites⟩

theorem Layout.isReturning_list {element : Codec} (ih : element.IsReturning config) :
    (Layout.list element).IsReturning config := by
  rintro bs v ⟨hsized, items, rfl, hitems⟩ hw
  obtain ⟨hn, body, rfl, hbody⟩ := writes_list.1 hw
  obtain ⟨ps, rfl, hps⟩ := hbody.exists_partners fun cs x hx hcs =>
    ih cs x (hitems x hx) hcs
  have hspells : SpellAll (fun cs x => element.Spells config.byteOrder config.encoding cs x) body
      (ps.map (·.2)) := (hps.mono fun _ _ _ hp => hp.1).map
  have hwrites : SpellAll (fun cs x => (element.write config x).Writes cs) body (ps.map (·.2)) :=
    (hps.mono fun _ _ _ hp => hp.2.2).map
  have hlength : (ps.map (·.1)).length = (ps.map (·.2)).length := by simp
  rw [hlength] at hn ⊢
  refine ⟨.list (ps.map (·.2)), ⟨hsized, body, _, hn, rfl, hspells, rfl⟩, ?_, ?_⟩
  · refine .list (Value.agreeAll_map fun p hp => ?_)
    obtain ⟨_, -, hagrees, -⟩ := hps.exists_of_mem hp
    exact hagrees
  · exact writes_list.2 ⟨hn, body, rfl, hwrites⟩

def Layout.EntryReturns (config : Config) (key : Primitive) (value : Codec) (bs : Bytes)
    (e f : Value × Value) : Prop :=
  SpellPair (key.Spells config.byteOrder config.encoding)
    (value.Spells config.byteOrder config.encoding) bs f ∧
  EntryWrites config key value bs f ∧
  f.1 = e.1.fresh ∧ e.1.Agrees f.1 ∧ e.2.Agrees f.2

theorem Layout.exists_entryReturns {key : Primitive} {value : Codec}
    (ih : value.IsReturning config) {e : Value × Value}
    (hk : key.CanonicalKey config.encoding.Recovers e.1)
    (hv : value.Recovers config.encoding e.2)
    (hw : EntryWrites config key value bs e) :
    ∃ f, EntryReturns config key value bs e f := by
  obtain ⟨cs, ds, rfl, hcs, hds⟩ := hw
  obtain ⟨k, hspell, hagree, hwrite, hfresh⟩ := Primitive.exists_returns hk.1 hcs
  obtain ⟨x, hspell', hagree', hwrite'⟩ := ih ds e.2 hv hds
  exact ⟨(k, x), ⟨cs, ds, rfl, hspell, hspell'⟩, ⟨cs, ds, rfl, hwrite, hwrite'⟩, hfresh hk.2,
    hagree, hagree'⟩

section

variable {key : Primitive} {value : Codec} {ps : List ((Value × Value) × (Value × Value))}

theorem Layout.keys_of_entryReturns
    (h : SpellAll (fun cs p => EntryReturns config key value cs p.1 p.2) bs ps) :
    (ps.map (·.2)).map (·.1) = ((ps.map (·.1)).map (·.1)).map Value.fresh := by
  simp only [List.map_map, List.map_inj_left]
  intro p hp
  obtain ⟨_, -, -, hfresh, -⟩ := h.exists_of_mem hp
  exact hfresh

theorem Layout.returns_map (hsized : value.isSized = true) {entries : List (Value × Value)}
    (hkeys : ∀ k ∈ entries.map (·.1), key.CanonicalKey config.encoding.Recovers k)
    (hdistinct : Value.Distinct (entries.map (·.1))) (hperm : (ps.map (·.1)).Perm entries)
    (harranged : Arranged config ((ps.map (·.1)).map (·.1))) (hn : ps.length < 2 ^ 32)
    (h : SpellAll (fun cs p => EntryReturns config key value cs p.1 p.2) bs ps) :
    (Layout.map key value).Returns config (config.byteOrder.countBytes ps.length ++ bs)
      (.dict entries) (.dict (ps.map (·.2))) := by
  have hfresh := keys_of_entryReturns h
  have hdistinct' : Value.Distinct ((ps.map (·.2)).map (·.1)) := by
    rw [hfresh]
    exact distinct_fresh hkeys hdistinct (hperm.map (·.1))
  -- Keys come back arranged, so writing them again does not move them.
  have harranged' : Arranged config ((ps.map (·.2)).map (·.1)) := by
    rw [hfresh]
    exact arranged_fresh.2 harranged
  have hkeys' : ∀ e ∈ ps.map (·.2), key.CanonicalKey config.encoding.Recovers e.1 := by
    intro e he
    have hmem : e.1 ∈ ((ps.map (·.1)).map (·.1)).map Value.fresh := by
      rw [← hfresh]
      exact List.mem_map_of_mem he
    obtain ⟨k, hk, hek⟩ := List.mem_map.1 hmem
    rw [← hek]
    exact (hkeys k ((hperm.map (·.1)).mem_iff.1 hk)).fresh
  have hspells : SpellAll (SpellPair (key.Spells config.byteOrder config.encoding)
      fun cs x => value.Spells config.byteOrder config.encoding cs x) bs (ps.map (·.2)) :=
    (h.mono fun _ _ _ hp => hp.1).map
  have hwrites : SpellAll (EntryWrites config key value) bs (ps.map (·.2)) :=
    (h.mono fun _ _ _ hp => hp.2.1).map
  have hn' : (ps.map (·.2)).length < 2 ^ 32 := by rwa [List.length_map]
  have hcount : config.byteOrder.countBytes ps.length ++ bs =
      config.byteOrder.countBytes (ps.map (·.2)).length ++ bs := by rw [List.length_map]
  refine ⟨⟨hsized, bs, _, hn', hcount, hspells, ?_⟩, ?_, ?_⟩
  · rw [Value.ofPairs_of_distinct hdistinct']
  · refine .dict hperm.symm (Value.agreeEntries_map fun p hp => ?_)
    obtain ⟨_, -, -, -, hagrees⟩ := h.exists_of_mem hp
    exact hagrees
  · exact (writes_map rfl).2 ⟨_, arrangeEntries_of_arranged hkeys' harranged', hn', bs, hcount,
      hwrites⟩

theorem Layout.isReturning_map (ih : value.IsReturning config) :
    (Layout.map key value).IsReturning config := by
  rintro bs v ⟨hsized, entries, rfl, hdistinct, hentries⟩ hw
  have hkeys : ∀ e ∈ entries, key.CanonicalKey config.encoding.Recovers e.1 :=
    fun e he => (hentries e he).1
  obtain ⟨arranged, ha, hn, body, rfl, hbody⟩ := (writes_map rfl).1 hw
  obtain ⟨_, ha', hperm, harranged⟩ := arrangeEntries_eq config hkeys
  obtain rfl := Option.some.inj (ha.symm.trans ha')
  obtain ⟨ps, rfl, hps⟩ := hbody.exists_partners fun cs e he hcs => by
    obtain ⟨hk, hv⟩ := hentries e (hperm.mem_iff.1 he)
    exact exists_entryReturns ih hk hv hcs
  rw [List.length_map] at hn ⊢
  refine ⟨_, returns_map hsized (fun k hk => ?_) hdistinct hperm harranged hn hps⟩
  obtain ⟨e, he, rfl⟩ := List.mem_map.1 hk
  exact hkeys e he

end

theorem Layout.isReturning_record {type : RecordType}
    (ih : ∀ f ∈ type.fields, f.layout.IsReturning config) :
    (Layout.record type).IsReturning config := by
  rintro bs v ⟨hread, hc⟩ hw
  obtain ⟨head, values, rfl, ht, hfields⟩ := RecordLayout.canonicalBy_iff.1 hc
  obtain ⟨hwrite, hfields', hw⟩ := (writes_record ht).1 hw
  rw [RecordHead.hides, Bool.or_eq_false_iff, ht] at hwrite hfields'
  obtain ⟨ws, hspells, hagrees, hwrites⟩ := exists_fields_returns ih hfields hw
  refine ⟨.newRecord type ws, ⟨?_, ?_⟩, .record ht hagrees, ?_⟩
  · simpa [canRead] using hread
  · exact RecordLayout.spells_iff.2 ⟨hfields'.1, ws, hspells, rfl⟩
  · exact writes_newRecord.2 ⟨hwrite.1, hfields'.1, hwrites⟩

theorem Layout.isReturning (config : Config) (codec : Codec) : codec.IsReturning config := by
  induction codec using Layout.induct with
  | primitive p =>
    intro bs v hc hw
    rw [write_primitive] at hw
    obtain ⟨w, hspells, hagrees, hwrites, -⟩ := Primitive.exists_returns hc hw
    exact ⟨w, hspells, hagrees, by rwa [write_primitive]⟩
  | rgb565 => exact fun bs v hc hw => ⟨v, returns_colour hc hw⟩
  | list element ih => exact isReturning_list ih
  | map key value ih => exact isReturning_map ih
  | record type ih => exact isReturning_record ih

/-- What is written of canonical values of fields spells values that agree with them, if nothing keeps
reading from their parts. -/
theorem exists_fields_spell {fields : List Field} {values : List Value}
    (hc : fieldsCanonicalBy (fun t => t.hasSurrogate = false) Layout.canRead fields values)
    (hw : (writeFields config fields values).Writes bs) :
    ∃ ws, fieldsSpell config.byteOrder config.encoding fields bs ws ∧ Value.AgreeAll values ws := by
  have hrecovers : fieldsCanonicalBy config.encoding.Recovers Layout.canRead fields values :=
    fieldsCanonicalBy_mono (fun f _ v _ hv => hv.recovers config.encoding) hc
  obtain ⟨ws, hspells, hagrees, -⟩ :=
    exists_fields_returns (fun f _ => f.layout.isReturning config) hrecovers hw
  exact ⟨ws, hspells, hagrees⟩

theorem Layout.Returns.read {codec : Codec} {w : Value} (h : codec.Returns config bs v w)
    (more : Bytes) : codec.read config (.ofBytes (bs ++ more)) =
      .ok w (.buffer (bs ++ more) bs.length) :=
  (codec.reads config).complete h.1 [] more

/-- A canonical value that an empty stream takes is read from it again, whatever follows, by a
layout that nothing keeps from reading. -/
theorem Layout.read_write (config : Config) (codec : Codec) (v : Value) (bs : Bytes)
    (hr : codec.isReadable = true) (hc : codec.Canonical v)
    (hw : ({} : Sink).take (codec.write config v) = ({ written := bs }, none)) (more : Bytes) :
    ∃ w, codec.read config (.ofBytes (bs ++ more)) = .ok w (.buffer (bs ++ more) bs.length) ∧
      v.Agrees w ∧ (v.isFreeOfNaN = true → v.equal w = true) := by
  obtain ⟨w, h⟩ := isReturning config codec bs v (recovers_of_canonical config.encoding hr hc) hw
  exact ⟨w, h.read more, h.2.1, fun hn => Value.equal_of_agrees hn h.2.1⟩

theorem Layout.read_write_sorted :
    let config : Config := { byteOrder := .big }
    let codec : Codec := .map .string (.list (.primitive (.int ⟨.w16, true⟩)))
    let v : Value := .dict [(.text [0x62], .list [.int 1, .int (-2)]), (.text [0x61], .list [])]
    let bs : Bytes := [0, 0, 0, 2, 0, 0, 0, 1, 0x61, 0, 0, 0, 0, 0, 0, 0, 1, 0x62, 0, 0, 0, 2, 0, 1,
      0xFF, 0xFE]
    codec.isReadable = true ∧ codec.Canonical v ∧
    ({} : Sink).take (codec.write config v) = ({ written := bs }, none) ∧
    ∀ more, ∃ w,
      codec.read config (.ofBytes (bs ++ more)) = .ok w (.buffer (bs ++ more) bs.length) ∧
      v.Agrees w ∧ (v.isFreeOfNaN = true → v.equal w = true) := by
  intro config codec v bs
  have hr : codec.isReadable = true := rfl
  have hc : codec.Canonical v := by
    refine ⟨rfl, _, rfl, ?_, ?_⟩
    · exact List.pairwise_pair.2 (by cbv)
    · simp only [List.forall_mem_cons, List.not_mem_nil, false_imp_iff, implies_true, and_true]
      refine ⟨⟨⟨⟨_, rfl, rfl⟩, rfl⟩, rfl, _, rfl, ?_⟩, ⟨⟨_, rfl, rfl⟩, rfl⟩, rfl, _, rfl, ?_⟩
      · simp [Layout.CanonicalBy, Primitive.Canonical]
      · simp
  have ha : ∀ o₁ o₂ : Output, arrangeEntries config [(.text [0x62], o₁), (.text [0x61], o₂)] =
      some [(.text [0x61], o₂), (.text [0x62], o₁)] := by
    intro o₁ o₂
    rw [arrangeEntries, if_pos rfl, sort?, Sorting.leastRun_of_lt (by simp)]
    cbv
  have hw : (codec.write config v).Writes bs := by
    simp only [codec, v, Layout.write_map, Layout.write_list, Layout.write_primitive, Value.pairs,
      Value.items, Value.parts?, List.map, writeEntries, ha, List.length_cons, List.length_nil]
    exact Output.writes_iff.2 ⟨rfl, rfl⟩
  exact ⟨hr, hc, hw, Layout.read_write config codec v bs hr hc hw⟩

/-- A record type with a field that has the name of an operation: lists of its records are written,
but not even the empty one is read. -/
theorem Layout.read_write_hidden :
    let config : Config := {}
    let type : RecordType :=
      ⟨⟨0, "R"⟩, "R", "R", [], [⟨"min_encoded_size", .primitive (.int .uint8), none⟩]⟩
    let codec : Codec := .list (.record type)
    let bs : Bytes := [0, 0, 0, 0]
    codec.Canonical (.list []) ∧
    ({} : Sink).take (codec.write config (.list [])) = ({ written := bs }, none) ∧
    ¬ ∃ w s, codec.read config (.ofBytes bs) = .ok w s := by
  intro config type codec bs
  refine ⟨⟨rfl, [], rfl, by simp⟩, ?_, ?_⟩
  · refine Layout.writes_list.2 ?_
    exact ⟨by decide, [], rfl, .nil⟩
  · rintro ⟨w, s, h⟩
    have hf : codec.read config (.ofBytes bs) = .error (.fault .unsupported) (.buffer bs 4) := rfl
    rw [hf] at h
    cases h

end RecordWire
