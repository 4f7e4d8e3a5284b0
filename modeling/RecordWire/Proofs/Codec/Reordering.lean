import RecordWire.Proofs.Codec.RoundTrip

/-!
The order in which the entries of a dictionary came in does not show in what is written, if keys
are sorted. Two values are related if they differ in nothing but that order, in any of the
dictionaries that the layout takes as maps; sorting brings the entries of both into the one order
that their keys have.
-/

namespace RecordWire

open Reader (SpellAll SpellPair)

/-- Keys that can be brought into one order: no two are alike, none is NaN, and any two can be
compared. -/
structure Value.Sortable (keys : List Value) : Prop where
  distinct : Value.Distinct keys
  noNaN : ∀ k ∈ keys, k.isNaN = false
  comparable : keys.Pairwise fun k l => (k.before? l).isSome = true

/-- Two values for a layout that differ in nothing but the order of the entries of dictionaries. -/
inductive Layout.Reordered : Codec → Value → Value → Prop
  | same {codec : Codec} (v : Value) : Reordered codec v v
  /-- Item by item. -/
  | items {element : Codec} {v w : Value} (ps : List (Value × Value))
    (hv : v.items (Layout.list element).name = .ok (ps.map (·.1)))
    (hw : w.items (Layout.list element).name = .ok (ps.map (·.2)))
    (h : ∀ p ∈ ps, Reordered element p.1 p.2) : Reordered (.list element) v w
  /-- Pair by pair: each is a key with its two values. -/
  | pairs {key : Primitive} {value : Codec} {v w : Value} (ps : List (Value × Value × Value))
    (hv : v.pairs = .ok (ps.map fun p => (p.1, p.2.1)))
    (hw : w.pairs = .ok (ps.map fun p => (p.1, p.2.2)))
    (h : ∀ p ∈ ps, Reordered value p.2.1 p.2.2) : Reordered (.map key value) v w
  /-- Entry by entry, after both dictionaries have been put into another order. -/
  | entries {key : Primitive} {value : Codec} {es fs : List (Value × Value)}
    (ps : List (Value × Value × Value)) (hk : Value.Sortable (ps.map (·.1)))
    (hes : es.Perm (ps.map fun p => (p.1, p.2.1)))
    (hfs : fs.Perm (ps.map fun p => (p.1, p.2.2)))
    (h : ∀ p ∈ ps, Reordered value p.2.1 p.2.2) : Reordered (.map key value) (.dict es) (.dict fs)
  /-- Field by field, by the fields of the type that the records have themselves. -/
  | record {type : RecordType} {head : RecordHead Value} (object : Nat) (ps : List (Value × Value))
    (h : ∀ q ∈ head.type.fields.zip ps, Reordered q.1.layout q.2.1 q.2.2) :
    Reordered (.record type) (.record head (ps.map (·.1)))
      (.record { head with object := object } (ps.map (·.2)))

namespace Layout

variable {config : Config} {bs : Bytes} {v w : Value}

theorem Reordered.symm {codec : Codec} (h : codec.Reordered v w) : codec.Reordered w v := by
  induction h with
  | same v => exact .same v
  | items ps hv hw h ih =>
    refine .items (ps.map Prod.swap) ?_ ?_ (List.forall_mem_map.2 ih)
    · rwa [List.map_map]
    · rwa [List.map_map]
  | pairs ps hv hw h ih =>
    refine .pairs (ps.map (Prod.map id Prod.swap)) ?_ ?_ (List.forall_mem_map.2 ih)
    · rwa [List.map_map]
    · rwa [List.map_map]
  | entries ps hk hes hfs h ih =>
    refine .entries (ps.map (Prod.map id Prod.swap)) ?_ ?_ ?_ (List.forall_mem_map.2 ih)
    · rwa [List.map_map]
    · rwa [List.map_map]
    · rwa [List.map_map]
  | @record type head object ps h ih =>
    have hswap : ∀ q ∈ head.type.fields.zip (ps.map Prod.swap), Reordered q.1.layout q.2.1 q.2.2 := by
      rw [List.zip_map_right]
      exact List.forall_mem_map.2 ih
    have hrecord : Reordered (.record type)
        (.record { head with object := object } ((ps.map Prod.swap).map (·.1)))
        (.record head ((ps.map Prod.swap).map (·.2))) :=
      .record head.object (ps.map Prod.swap) hswap
    simpa [List.map_map, Function.comp_def] using hrecord

end Layout

theorem Primitive.exists_family {config : Config} {p : Primitive} {bs : Bytes} {v : Value}
    (hw : (p.write config v).Writes bs) (hn : v.isNaN = false) : ∃ F : Value.Family, F.Has v := by
  cases v with
  | atom a =>
    cases a with
    | bool | int => exact ⟨.number, .int rfl⟩
    | float x object => exact ⟨.number, .float hn⟩
    | text t => exact ⟨.text, t, rfl⟩
    | bytes bs | byteArray bs => exact ⟨.bytes, _, bs, rfl, rfl⟩
    | none | date | moment => cases p <;> exact (Output.not_writes_fail hw).elim
  | list | tuple | dict | record => cases p <;> exact (Output.not_writes_fail hw).elim

theorem Value.Sortable.exists_family {keys : List Value} (h : Value.Sortable keys)
    (hf : ∀ k ∈ keys, ∃ F : Value.Family, F.Has k) :
    ∃ F : Value.Family, ∀ k ∈ keys, F.Has k := by
  cases keys with
  | nil => exact ⟨.number, by simp⟩
  | cons k keys =>
    obtain ⟨F, hF⟩ := hf k List.mem_cons_self
    refine ⟨F, List.forall_mem_cons.2 ⟨hF, fun l hl => ?_⟩⟩
    obtain ⟨G, hG⟩ := hf l (List.mem_cons_of_mem _ hl)
    have hkl := (List.pairwise_cons.1 h.comparable).1 l hl
    rwa [Value.Family.eq_of_before? hF hG hkl]

/-- Entries with such keys are arranged in one way, in whichever order they come. -/
theorem arrangeEntries_eq_of_perm {α : Type} {config : Config} (hs : config.sortMapKeys = true)
    {es fs : List (Value × α)} (hk : Value.Sortable (es.map (·.1)))
    (hf : ∀ e ∈ es, ∃ F : Value.Family, F.Has e.1) (hp : es.Perm fs) :
    arrangeEntries config es = arrangeEntries config fs := by
  obtain ⟨F, hF⟩ := hk.exists_family (List.forall_mem_map.2 hf)
  obtain ⟨β, _, rank, hr⟩ := F.exists_rank
  have hnodup := hr.nodup hF hk.distinct
  rw [List.map_map] at hnodup
  rw [arrangeEntries, arrangeEntries, if_pos hs, if_pos hs]
  exact sort?_eq_of_perm (hr.ranks (List.forall_mem_map.1 hF)) hnodup hp

namespace Layout

variable {config : Config} {bs : Bytes} {v w : Value}

theorem entriesWrite_of_arranged {key : Primitive} {value : Codec} {body : Bytes}
    {ps arranged : List (Value × Value × Value)}
    (ih : ∀ p ∈ ps, ∀ {cs}, (value.write config p.2.1).Writes cs →
      (value.write config p.2.2).Writes cs)
    (ha : arrangeEntries config ps = some arranged)
    (h : SpellAll (EntryWrites config key value) body (arranged.map fun p => (p.1, p.2.1))) :
    SpellAll (EntryWrites config key value) body (arranged.map fun p => (p.1, p.2.2)) := by
  refine (h.of_map.mono fun cs p hp hcs => ?_).map
  obtain ⟨ks, ws, rfl, hk, hw⟩ := hcs
  exact ⟨ks, ws, rfl, hk, ih p ((perm_of_arrangeEntries ha).mem_iff.1 hp) hw⟩

theorem writes_pairs {key : Primitive} {value : Codec} {ps : List (Value × Value × Value)}
    (ih : ∀ p ∈ ps, ∀ {cs}, (value.write config p.2.1).Writes cs →
      (value.write config p.2.2).Writes cs) {es fs : List (Value × Value)}
    (hes : arrangeEntries config es = arrangeEntries config (ps.map fun p => (p.1, p.2.1)))
    (hfs : arrangeEntries config fs = arrangeEntries config (ps.map fun p => (p.1, p.2.2)))
    (hv : v.pairs = .ok es) (hw : w.pairs = .ok fs)
    (h : ((Layout.map key value).write config v).Writes bs) :
    ((Layout.map key value).write config w).Writes bs := by
  obtain ⟨_, ha, hn, body, rfl, hbody⟩ := (writes_map hv).1 h
  rw [hes, arrangeEntries_map ps fun p => p.2.1] at ha
  obtain ⟨arranged, harranged, rfl⟩ := Option.map_eq_some_iff.1 ha
  refine (writes_map hw).2 ⟨arranged.map fun p => (p.1, p.2.2), ?_, by simpa using hn, body, ?_,
    entriesWrite_of_arranged ih harranged hbody⟩
  · rw [hfs, arrangeEntries_map ps fun p => p.2.2, harranged, Option.map_some]
  · simp

theorem writesFields_of_zip {fields : List Field} {ps : List (Value × Value)}
    (ih : ∀ q ∈ fields.zip ps, ∀ {cs}, (q.1.layout.write config q.2.1).Writes cs →
      (q.1.layout.write config q.2.2).Writes cs)
    (h : (writeFields config fields (ps.map (·.1))).Writes bs) :
    (writeFields config fields (ps.map (·.2))).Writes bs := by
  rw [writeFields, List.zip_map_right, List.map_map] at h ⊢
  exact Output.writes_concat.2 ((Output.writes_concat.1 h).mono fun cs q hq hcs => ih q hq hcs)

theorem Reordered.writes {codec : Codec} (hs : config.sortMapKeys = true)
    (h : codec.Reordered v w) (hw : (codec.write config v).Writes bs) :
    (codec.write config w).Writes bs := by
  induction h generalizing bs with
  | same v => exact hw
  | @items element v w ps hv hw' h ih =>
    obtain ⟨hn, body, rfl, hbody⟩ := (writes_items hv).1 hw
    have hbody' : SpellAll (fun cs x => (element.write config x).Writes cs) body (ps.map (·.2)) :=
      (hbody.of_map.mono fun cs p hp hcs => ih p hp hcs).map
    exact (writes_items hw').2 ⟨by simpa using hn, body, by simp, hbody'⟩
  | pairs ps hv hw' h ih => exact writes_pairs (fun p hp _ => ih p hp) rfl rfl hv hw' hw
  | @entries key value es fs ps hk hes hfs h ih =>
    -- All keys were written, so they are of one family, and both dictionaries are arranged alike.
    have hf : ∀ p ∈ ps, ∃ F : Value.Family, F.Has p.1 := by
      intro p hp
      obtain ⟨arranged, ha, -, body, -, hbody⟩ := (writes_map rfl).1 hw
      have hmem : (p.1, p.2.1) ∈ arranged :=
        ((perm_of_arrangeEntries ha).trans hes).mem_iff.2
          (List.mem_map_of_mem (f := fun p : Value × Value × Value => (p.1, p.2.1)) hp)
      obtain ⟨cs, ks, ws, -, hkey, -⟩ := hbody.exists_of_mem hmem
      exact Primitive.exists_family hkey (hk.noNaN p.1 (List.mem_map_of_mem hp))
    have harrange : ∀ (g : Value × Value × Value → Value) {ds : List (Value × Value)},
        ds.Perm (ps.map fun p => (p.1, g p)) →
        arrangeEntries config ds = arrangeEntries config (ps.map fun p => (p.1, g p)) := by
      intro g ds hds
      have hf' : ∀ e ∈ ps.map fun p => (p.1, g p), ∃ F : Value.Family, F.Has e.1 :=
        List.forall_mem_map.2 hf
      refine (arrangeEntries_eq_of_perm hs ?_ hf' hds.symm).symm
      rwa [List.map_map]
    exact writes_pairs (fun p hp _ => ih p hp) (harrange (·.2.1) hes) (harrange (·.2.2) hfs) rfl
      rfl hw
  | @record type head object ps h ih =>
    rw [write_record] at hw ⊢
    change (if head.type.isKindOf type then
      if head.hides .writeData || head.hides .fields then Output.fail (.fault .unsupported)
      else writeFields config head.type.fields (ps.map (·.2))
      else .invalid (.notRecord type.typeName head.type.className)).Writes bs
    split at hw
    · rename_i hkind
      rw [if_pos hkind]
      split at hw
      · exact absurd hw Output.not_writes_fail
      · rename_i hshown
        rw [if_neg hshown]
        exact writesFields_of_zip ih hw
    · exact absurd hw Output.not_writes_invalid

/-- With sorted keys, what is written shows nothing of the order in which the entries of
dictionaries came in, at any depth. -/
theorem write_reordered (config : Config) (codec : Codec) (v w : Value)
    (hs : config.sortMapKeys = true) (h : codec.Reordered v w) (bs : Bytes) :
    ({} : Sink).take (codec.write config v) = ({ written := bs }, none) ↔
      ({} : Sink).take (codec.write config w) = ({ written := bs }, none) :=
  ⟨h.writes hs, h.symm.writes hs⟩

/-- A dictionary of dictionaries, with an integer and a floating-point number for keys. -/
theorem write_reordered_nested :
    let config : Config := {}
    let codec : Codec := .map .double (.map .string (.primitive .bool))
    let half : Value := .float ⟨0x3FE0000000000000⟩
    let v : Value := .dict [(.int 1, .dict [(.text [0x62], .bool true), (.text [0x61], .bool false)]),
      (half, .dict [])]
    let w : Value := .dict [(half, .dict []),
      (.int 1, .dict [(.text [0x61], .bool false), (.text [0x62], .bool true)])]
    config.sortMapKeys = true ∧ codec.Reordered v w ∧
    ∀ bs, ({} : Sink).take (codec.write config v) = ({ written := bs }, none) ↔
      ({} : Sink).take (codec.write config w) = ({ written := bs }, none) := by
  intro config codec half v w
  have hinner : (Layout.map .string (.primitive .bool)).Reordered
      (.dict [(.text [0x62], .bool true), (.text [0x61], .bool false)])
      (.dict [(.text [0x61], .bool false), (.text [0x62], .bool true)]) := by
    refine .entries [(.text [0x62], .bool true, .bool true), (.text [0x61], .bool false, .bool false)]
      ⟨?_, ?_, ?_⟩ (.refl _) (.swap _ _ _) ?_
    · exact List.pairwise_pair.2 (by cbv)
    · simp [Value.isNaN]
    · exact List.pairwise_pair.2 (by cbv)
    · simp only [List.forall_mem_cons, List.not_mem_nil, false_imp_iff, implies_true, and_true]
      exact ⟨.same _, .same _⟩
  have h : codec.Reordered v w := by
    refine .entries [(.int 1, .dict [(.text [0x62], .bool true), (.text [0x61], .bool false)],
        .dict [(.text [0x61], .bool false), (.text [0x62], .bool true)]), (half, .dict [], .dict [])]
      ⟨?_, ?_, ?_⟩ (.refl _) (.swap _ _ _) ?_
    · exact List.pairwise_pair.2 (by decide +kernel)
    · simp only [List.map, List.forall_mem_cons, List.not_mem_nil, false_imp_iff, implies_true,
        and_true]
      exact ⟨rfl, rfl⟩
    · exact List.pairwise_pair.2 (by decide +kernel)
    · simp only [List.forall_mem_cons, List.not_mem_nil, false_imp_iff, implies_true, and_true]
      exact ⟨hinner, .same _⟩
  exact ⟨rfl, h, write_reordered config codec v w rfl h⟩

end Layout

end RecordWire
