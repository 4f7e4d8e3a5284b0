import RecordWire.Proofs.Codec.Meaning

/-!
Sorting the keys of maps, or not, makes no difference to what an encoding means, nor to its length: an
entry is written in as many bytes wherever it stands.
-/

namespace RecordWire

variable {config : Config} {bs : Bytes} {v : Value}

def Config.sorting (config : Config) (sorted : Bool) : Config :=
  { config with sortMapKeys := sorted }

theorem Primitive.write_of_sorting (p : Primitive) (sorted : Bool) :
    p.write (config.sorting sorted) v = p.write config v := by
  have hb : (config.sorting sorted).byteOrder = config.byteOrder := rfl
  have he : (config.sorting sorted).encoding = config.encoding := rfl
  cases p <;> unfold write <;> simp only [hb, he]

/-- Whatever is written of a given value with keys sorted, or not sorted, is written in as many bytes
the other way. -/
def Layout.IsAsLong (config : Config) (codec : Codec) : Prop :=
  ∀ bs v sorted, codec.Given v → (codec.write config v).Writes bs →
    ∃ cs, (codec.write (config.sorting sorted) v).Writes cs ∧ cs.length = bs.length

theorem Layout.isAsLong_list {element : Codec} (ih : element.IsAsLong config) :
    (Layout.list element).IsAsLong config := by
  rintro bs v sorted ⟨items, rfl, hitems⟩ hw
  obtain ⟨hn, body, rfl, hbody⟩ := writes_list.1 hw
  obtain ⟨body', hbody', hl⟩ := hbody.exists_as_long fun cs x hx hcs =>
    ih cs x sorted (hitems x hx) hcs
  exact ⟨_, writes_list.2 ⟨hn, body', rfl, hbody'⟩, by simp [hl]⟩

theorem Layout.isAsLong_map {key : Primitive} {value : Codec} (ih : value.IsAsLong config) :
    (Layout.map key value).IsAsLong config := by
  rintro bs v sorted ⟨pairs, hv, hpairs⟩ hw
  obtain ⟨arranged, ha, hn, body, rfl, hbody⟩ := (writes_map hv).1 hw
  obtain ⟨arranged', ha', hperm', -⟩ :=
    arrangeEntries_eq (config.sorting sorted) fun p hp => (hpairs p hp).1
  have hperm := perm_of_arrangeEntries ha
  obtain ⟨body₁, hbody₁, hl₁⟩ := hbody.exists_as_long
    (S := EntryWrites (config.sorting sorted) key value) fun cs e he hcs => by
      obtain ⟨ks, ws, rfl, hks, hws⟩ := hcs
      obtain ⟨ws', hws', hl⟩ := ih ws e.2 sorted (hpairs e (hperm.mem_iff.1 he)).2 hws
      rw [← key.write_of_sorting sorted] at hks
      exact ⟨ks ++ ws', ⟨ks, ws', rfl, hks, hws'⟩, by simp [hl]⟩
  obtain ⟨body₂, hbody₂, hl₂⟩ := hbody₁.exists_perm (hperm.trans hperm'.symm)
  have hlength := (hperm.trans hperm'.symm).length_eq
  refine ⟨_, (writes_map hv).2 ⟨arranged', ha', by omega, body₂, rfl, hbody₂⟩, ?_⟩
  simp [hl₁, hl₂]

theorem exists_fields_as_long {fields : List Field} (ih : ∀ f ∈ fields, f.layout.IsAsLong config)
    (sorted : Bool) {values : List Value} (hg : fieldsGiven fields values)
    (hw : (writeFields config fields values).Writes bs) :
    ∃ cs, (writeFields (config.sorting sorted) fields values).Writes cs ∧
      cs.length = bs.length := by
  induction fields generalizing bs values with
  | nil =>
    obtain rfl := hg
    exact ⟨bs, hw, rfl⟩
  | cons f fields ihs =>
    obtain ⟨v, vs, rfl, hv, hvs⟩ := fieldsGiven_cons.1 hg
    obtain ⟨cs, ds, rfl, hcs, hds⟩ := writes_fields_cons.1 hw
    obtain ⟨cs', hcs', hl⟩ := ih f List.mem_cons_self cs v sorted hv hcs
    obtain ⟨ds', hds', hl'⟩ := ihs (fun g hg => ih g (List.mem_cons_of_mem _ hg)) hvs hds
    exact ⟨cs' ++ ds', writes_fields_cons.2 ⟨cs', ds', rfl, hcs', hds'⟩, by simp [hl, hl']⟩

theorem Layout.isAsLong (config : Config) (codec : Codec) : codec.IsAsLong config := by
  induction codec using Layout.induct with
  | primitive p =>
    intro bs v sorted _ hw
    rw [write_primitive] at hw
    exact ⟨bs, by rwa [write_primitive, Primitive.write_of_sorting], rfl⟩
  | rgb565 =>
    intro bs v sorted _ hw
    rw [write_rgb565] at hw
    exact ⟨bs, by rwa [write_rgb565], rfl⟩
  | list element ih => exact isAsLong_list ih
  | map key value ih => exact isAsLong_map ih
  | record type ih =>
    intro bs v sorted hg hw
    obtain ⟨head, values, rfl, ht, hfields⟩ := RecordLayout.given_iff.1 hg
    obtain ⟨hwrite, hshown, hw⟩ := (writes_record ht).1 hw
    obtain ⟨cs, hcs, hl⟩ := exists_fields_as_long ih sorted hfields hw
    exact ⟨cs, (writes_record ht).2 ⟨hwrite, hshown, hcs⟩, hl⟩

/-- A given value is written with keys sorted if and only if it is written with keys as they come, in
as many bytes; and what is read back of either has the one meaning of the value, in which each key of
a map is bound to the value of its last pair. -/
theorem Layout.read_sorting (config : Config) (codec : Codec) (v : Value)
    (hr : codec.isReadable = true) (hg : codec.Given v) :
    ((∃ bs, ({} : Sink).take (codec.write (config.sorting true) v) = ({ written := bs }, none)) ↔
      ∃ bs, ({} : Sink).take (codec.write (config.sorting false) v) = ({ written := bs }, none)) ∧
    ∀ bs cs,
      ({} : Sink).take (codec.write (config.sorting true) v) = ({ written := bs }, none) →
      ({} : Sink).take (codec.write (config.sorting false) v) = ({ written := cs }, none) →
      bs.length = cs.length ∧ ∀ more, ∃ w w',
        codec.read config (.ofBytes (bs ++ more)) = .ok w (.buffer (bs ++ more) bs.length) ∧
        codec.read config (.ofBytes (cs ++ more)) = .ok w' (.buffer (cs ++ more) cs.length) ∧
        codec.Means v w ∧ codec.Means v w' ∧ w.Agrees w' ∧
        (w.isFreeOfNaN = true → w.equal w' = true) := by
  have hother : ∀ a b, (∃ bs, (codec.write (config.sorting a) v).Writes bs) →
      ∃ bs, (codec.write (config.sorting b) v).Writes bs := by
    rintro a b ⟨bs, hw⟩
    obtain ⟨cs, hcs, -⟩ := isAsLong (config.sorting a) codec bs v b hg hw
    exact ⟨cs, hcs⟩
  refine ⟨⟨hother true false, hother false true⟩, fun bs cs hbs hcs => ⟨?_, fun more => ?_⟩⟩
  · obtain ⟨ds, hds, hl⟩ := isAsLong (config.sorting true) codec bs v false hg hbs
    rw [← hl, hds.unique hcs]
  · obtain ⟨w, hspells, hmeans⟩ := isMeant (config.sorting true) hr bs v hg hbs
    obtain ⟨w', hspells', hmeans'⟩ := isMeant (config.sorting false) hr cs v hg hcs
    have hagrees := agrees_of_means hg hmeans hmeans'
    exact ⟨w, w', (codec.reads config).complete hspells [] more,
      (codec.reads config).complete hspells' [] more, hmeans, hmeans', hagrees,
      fun hn => Value.equal_of_agrees hn hagrees⟩

/-- A key that comes twice, with another one between. -/
theorem Layout.read_sorting_repeated :
    let config : Config := {}
    let codec : Codec := .map .string (.primitive .bool)
    let v : Value := .list [.tuple [.text [0x62], .bool true], .tuple [.text [0x61], .bool true],
      .tuple [.text [0x62], .bool false]]
    let bs : Bytes := [3, 0, 0, 0, 1, 0, 0, 0, 0x61, 1, 1, 0, 0, 0, 0x62, 1, 1, 0, 0, 0, 0x62, 0]
    let cs : Bytes := [3, 0, 0, 0, 1, 0, 0, 0, 0x62, 1, 1, 0, 0, 0, 0x61, 1, 1, 0, 0, 0, 0x62, 0]
    codec.isReadable = true ∧ codec.Given v ∧
    ({} : Sink).take (codec.write (config.sorting true) v) = ({ written := bs }, none) ∧
    ({} : Sink).take (codec.write (config.sorting false) v) = ({ written := cs }, none) ∧
    bs.length = cs.length ∧ ∀ more, ∃ w w',
      codec.read config (.ofBytes (bs ++ more)) = .ok w (.buffer (bs ++ more) bs.length) ∧
      codec.read config (.ofBytes (cs ++ more)) = .ok w' (.buffer (cs ++ more) cs.length) ∧
      codec.Means v w ∧ codec.Means v w' ∧ w.Agrees w' ∧
      (w.isFreeOfNaN = true → w.equal w' = true) := by
  intro config codec v bs cs
  have hr : codec.isReadable = true := rfl
  have hpairs : v.pairs = .ok [(.text [0x62], .bool true), (.text [0x61], .bool true),
      (.text [0x62], .bool false)] := rfl
  have hg : codec.Given v := by
    refine ⟨_, hpairs, ?_⟩
    simp only [List.forall_mem_cons, List.not_mem_nil, false_imp_iff, implies_true, and_true]
    exact ⟨⟨⟨⟨_, rfl, rfl⟩, rfl⟩, _, rfl⟩, ⟨⟨⟨_, rfl, rfl⟩, rfl⟩, _, rfl⟩, ⟨⟨_, rfl, rfl⟩, rfl⟩, _, rfl⟩
  have ha : ∀ o₁ o₂ o₃ : Output, arrangeEntries (config.sorting true)
      [(.text [0x62], o₁), (.text [0x61], o₂), (.text [0x62], o₃)] =
        some [(.text [0x61], o₂), (.text [0x62], o₁), (.text [0x62], o₃)] := by
    intro o₁ o₂ o₃
    have hs : (config.sorting true).sortMapKeys = true := rfl
    rw [arrangeEntries, if_pos hs, sort?, Sorting.leastRun_of_lt (by simp)]
    cbv
  have hbs : (codec.write (config.sorting true) v).Writes bs := by
    simp only [codec, Layout.write_map, Layout.write_primitive, hpairs, List.map, writeEntries, ha,
      List.length_cons, List.length_nil]
    exact Output.writes_iff.2 ⟨rfl, rfl⟩
  have harrange : ∀ os : List (Value × Output), arrangeEntries (config.sorting false) os = some os :=
    fun _ => rfl
  have hcs : (codec.write (config.sorting false) v).Writes cs := by
    simp only [codec, Layout.write_map, Layout.write_primitive, hpairs, List.map, writeEntries,
      harrange, List.length_cons, List.length_nil]
    exact Output.writes_iff.2 ⟨rfl, rfl⟩
  exact ⟨hr, hg, hbs, hcs, (Layout.read_sorting config codec v hr hg).2 bs cs hbs hcs⟩

/-- A record type with a field that has the name of an operation: a map with records of the type is
written either way, but not read. -/
theorem Layout.read_sorting_hidden :
    let config : Config := {}
    let type : RecordType :=
      ⟨⟨0, "R"⟩, "R", "R", [], [⟨"min_encoded_size", .primitive (.int .uint8), none⟩]⟩
    let codec : Codec := .map .string (.record type)
    let bs : Bytes := [0, 0, 0, 0]
    codec.Given (.list []) ∧
    ({} : Sink).take (codec.write (config.sorting true) (.list [])) = ({ written := bs }, none) ∧
    ({} : Sink).take (codec.write (config.sorting false) (.list [])) = ({ written := bs }, none) ∧
    ¬ ∃ w s, codec.read config (.ofBytes bs) = .ok w s := by
  intro config type codec bs
  refine ⟨⟨[], rfl, by simp⟩, ?_, ?_, ?_⟩
  · exact (Layout.writes_map rfl).2 ⟨[], rfl, by decide, [], rfl, .nil⟩
  · exact (Layout.writes_map rfl).2 ⟨[], rfl, by decide, [], rfl, .nil⟩
  · rintro ⟨w, s, h⟩
    have hf : codec.read config (.ofBytes bs) = .error (.fault .unsupported) (.buffer bs 4) := rfl
    rw [hf] at h
    cases h

end RecordWire
