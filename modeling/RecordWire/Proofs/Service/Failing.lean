import RecordWire.Proofs.Codec.Initial
import RecordWire.Proofs.Codec.PlainErrors
import RecordWire.Proofs.Log.Ending
import RecordWire.Proofs.Wire.Lenient

/-!
Errors of records on their way, of types that schemas declare: from plain data to bytes, and from bytes
to plain data. An error is reported as one of the library's own, unless the message about a value cannot
be put into words, or an operation fails by itself in a slot that the way comes to. On the way back
decoding a text or making a record can fail so; what was read always has plain data.
-/

namespace RecordWire

/-- The error is reported as one of the library's own. -/
def WireError.IsReported (e : WireError) : Prop := ∃ c, e.HasClass c

variable {ε : Type} [TextEncoding ε] {config : ConfigOf ε} {type : RecordType} {data v : Value}
  {e : WireError}

/-- Why plain data do not make a record without being refused. -/
inductive RecordLayout.Unmade (type : RecordType) (data : Value) : WireError → Prop
  /-- A value that is refused has no words. -/
  | words {why : InvalidValue} {x : Value} (hx : x ∈ why.shownValues) (hs : x.isShowable = false) :
    Unmade type data (.invalid why)
  /-- An operation on the data as a whole fails. -/
  | whole {e : WireError} (h : (Layout.record type).PlainEscapes data e) : Unmade type data e
  /-- An operation on the data for a slot fails. -/
  | slot {c : Codec} {x : Value} {e : WireError} (hf : (Layout.record type).Finds data c x)
    (h : c.fromPlain x = .error e) (he : c.PlainEscapes x e) : Unmade type data e

/-- Why a record is not written without being refused. -/
inductive RecordLayout.Unwritten {ε : Type} [TextEncoding ε] (config : ConfigOf ε)
    (type : RecordType) (v : Value) : WireError → Prop
  /-- A field hides that the record is one. -/
  | unknown (h : type.hidesClass = true) : Unwritten config type v (.fault .unsupported)
  /-- A value that is refused has no words. -/
  | words {why : InvalidValue} {x : Value} (hx : x ∈ why.shownValues) (hs : x.isShowable = false) :
    Unwritten config type v (.invalid why)
  /-- An operation on the value of a slot fails. -/
  | slot {c : Codec} {x : Value} {e : WireError} (hr : (Layout.record type).Reaches v c x)
    (h : (c.write config x).error? = some e) (he : c.Escapes config x e) :
    Unwritten config type v e

/-- Why a record is not read from bytes, and nothing is told of it. -/
inductive RecordLayout.Unread {ε : Type} [TextEncoding ε] (config : ConfigOf ε) (type : RecordType)
    (bs : Bytes) : WireError → Prop
  /-- A length with as many bytes behind it that are not decoded. -/
  | undecoded {why : Fault} (h : config.Undecoded bs why) : Unread config type bs (.fault why)
  /-- A record type in the layout of which no record can be made. -/
  | unmade (h : (Layout.record type).shows Operation.ofMaking = false) :
    Unread config type bs (.fault .unsupported)

theorem WireError.isReported_or_of_invalid {why : InvalidValue} :
    (invalid why).IsReported ∨ ∃ x ∈ why.shownValues, x.isShowable = false := by
  by_cases h : ∀ x ∈ why.shownValues, x.isShowable = true
  · exact .inl ⟨_, WireError.hasClass_invalid.2 h⟩
  · push Not at h
    obtain ⟨x, hx, hs⟩ := h
    exact .inr ⟨x, hx, Bool.not_eq_true _ ▸ hs⟩

namespace RecordLayout

theorem error_of_fromDict_schematic (hs : (Layout.record type).Schematic)
    (h : type.fromDict data = .error e) : e.IsReported ∨ type.Unmade data e := by
  have hrefusal : e.IsRefusal → e.IsReported ∨ type.Unmade data e := by
    rintro (⟨why, rfl⟩ | hillegal)
    · refine WireError.isReported_or_of_invalid.imp_right ?_
      rintro ⟨x, hx, hshow⟩
      exact .words hx hshow
    · exact .inl ⟨_, hillegal⟩
  rcases error_of_fromDict h with href | ⟨hh, -⟩ | ⟨entries, rfl, he | hfield⟩
  · exact hrefusal href
  · have hshown := (Layout.shows_record.1 (hs.shows [.fromDict] (by decide))).1 _ List.mem_cons_self
    rw [hshown] at hh
    cases hh
  · exact .inr (.whole he)
  · obtain ⟨f, hf, d, hd, hfield⟩ := hfield
    rcases Layout.error_of_fromPlain _ _ _ hfield with href | ⟨c, x, hfinds, hx, he⟩
    · exact hrefusal href
    · exact .inr (.slot (.step (.field hf hd) hfinds) hx he)

theorem encode_newRecord (hs : (Layout.record type).Schematic) (values : List Value) :
    (Value.newRecord type values).encode config =
      (Layout.record type).write config (.newRecord type values) := by
  have hshown := (Layout.shows_record.1 (hs.shows [.writeData, .fields] (by decide))).1
  have hwrite := hshown .writeData (by simp)
  have hfields := hshown .fields (by simp)
  rw [Value.encode, Layout.write_record, if_pos (isKindOf_self type)]
  simp [RecordHead.hides, hwrite, hfields]

end RecordLayout

namespace Service

open Logged

/-- The record that plain data made is encoded, or an error of writing is reported or has a cause. -/
theorem ends_serialize (hs : (Layout.record type).Schematic) (h : type.fromDict data = .ok v) :
    (serialize config v).Ends (fun _ => True) fun e => e.IsReported ∨ type.Unwritten config v e := by
  obtain ⟨entries, values, rfl, rfl, -⟩ := RecordLayout.ok_of_fromDict h
  refine (ends_ofExcept (fun _ _ => trivial) ?_).bind (R := fun _ => True) fun _ _ _ => ?_
  · intro e he
    unfold recordTitle at he
    dsimp only at he
    split at he
    · rename_i hh
      cases he
      exact .inr (.unknown hh)
    · cases he
  · dsimp only
    split
    · rename_i e he
      rw [RecordLayout.encode_newRecord hs] at he
      refine ends_throw ?_
      rcases Layout.error_of_write _ _ e he with ⟨why, rfl⟩ | ⟨c, x, hr, hw, hescapes⟩
      · refine WireError.isReported_or_of_invalid.imp_right ?_
        rintro ⟨x, hx, hshow⟩
        exact .words hx hshow
      · exact .inr (.slot hr hw hescapes)
    · exact (ends_log _ _ _).bind fun _ _ _ => ends_pure trivial

theorem error_of_readNew {bs : Bytes} {s : Source} (hs : (Layout.record type).Schematic)
    (h : type.readNew config (.ofBytes bs) = .error e s) :
    e.IsReported ∨ type.Unread config bs e := by
  have hown : (Layout.record type).shows [.readData, .fields, .minEncodedSize] = true :=
    hs.shows _ (by decide)
  have hread : (Layout.record type).read config (.ofBytes bs) = .error e s := by
    rw [Layout.read, RecordLayout.isFillable, (Layout.shows_record.1 hown).1 .readData (by decide),
      Bool.not_false, Bool.and_true]
    exact h
  rcases Layout.read_fails_mishap config _ [] bs e s hread with
    hshort | ⟨⟨why, rfl, hundecoded⟩ | ⟨rfl, hh⟩, -⟩
  · rcases WireError.hasClass_of_isShortage hshort with hc | ⟨-, hc⟩
    · exact .inl ⟨_, hc⟩
    · exact .inl ⟨_, hc⟩
  · exact .inr (.undecoded hundecoded)
  · refine .inr (.unmade (Bool.eq_false_iff.2 fun hmade => ?_))
    rw [Operation.ofReading, Layout.shows_append.2 ⟨hown, hmade⟩] at hh
    cases hh

theorem isReported_of_ensureConsumed {s t : Source}
    (h : Reader.ensureConsumed config s = .error e t) : e.IsReported := by
  unfold Reader.ensureConsumed at h
  split at h
  · split at h
    · split at h
      · cases h
      · cases h
        exact ⟨.malformedInput, _, _, _, rfl⟩
    · cases h
  · cases h

theorem error_of_readWhole {bs : Bytes} {s : Source} (hs : (Layout.record type).Schematic)
    (h : type.readWhole config (.ofBytes bs) = .error e s) :
    e.IsReported ∨ type.Unread config bs e := by
  unfold RecordLayout.readWhole at h
  cases hr : type.readNew config (.ofBytes bs) with
  | error d t =>
    rw [Reader.bind_of_error hr] at h
    cases h
    exact error_of_readNew hs hr
  | ok v t =>
    rw [Reader.bind_of_ok hr] at h
    cases hc : Reader.ensureConsumed config t with
    | error d t' =>
      rw [Reader.bind_of_error hc] at h
      cases h
      exact .inl (isReported_of_ensureConsumed hc)
    | ok _ t' =>
      rw [Reader.bind_of_ok hc] at h
      cases h

theorem ends_deserialize (hs : (Layout.record type).Schematic) (bs : Bytes) :
    (deserialize config type bs).Ends
      (fun v => (Layout.record type).Decoded v ∧ v.isNew = true)
      fun e => e.IsReported ∨ type.Unread config bs e := by
  have hdecoded : ∀ v, (deserialize config type bs).outcome.2 = .ok v →
      (Layout.record type).Decoded v ∧ v.isNew = true := by
    intro v hv
    obtain ⟨used, hspells⟩ := exists_spells_of_deserialize hv
    exact RecordLayout.decoded_of_spells (fun _ _ _ _ h => Layout.decoded_of_spells h) hspells
  unfold deserialize at hdecoded ⊢
  cases hr : type.readWhole config (.ofBytes bs) with
  | error e s => exact ends_throw (error_of_readWhole hs hr)
  | ok v s =>
    rw [hr] at hdecoded
    exact (ends_log _ _ _).bind fun _ _ _ => ends_pure (hdecoded v rfl)

end Service

theorem exists_map_collect {α β γ ε : Type} {f : α → Except ε β} {g : List β → γ} {xs : List α}
    (h : ∀ x ∈ xs, ∃ y, f x = .ok y) : ∃ z, (collect (xs.map f)).map g = .ok z := by
  cases hc : collect (xs.map f) with
  | ok ys => exact ⟨_, rfl⟩
  | error e =>
    obtain ⟨x, hx, he⟩ := exists_error_of_collect hc
    obtain ⟨y, hy⟩ := h x hx
    cases he.symm.trans hy

theorem Layout.Decoded.exists_toPlain {codec : Codec} (h : codec.Decoded v)
    (hs : v.showsToDict = true) : ∃ d, codec.toPlain v = .ok d := by
  induction h with
  | primitive =>
    rw [toPlain]
    exact ⟨_, rfl⟩
  | rgb565 =>
    rw [toPlain]
    exact ⟨_, rfl⟩
  | list _ ih =>
    simp only [Value.showsToDict, Value.every, Bool.and_eq_true, Value.everyOf_eq_true] at hs
    rw [toPlain_list]
    exact exists_map_collect fun x hx => ih x hx (hs.2 x hx)
  | map _ hk _ ih =>
    simp only [Value.showsToDict, Value.every, Bool.and_eq_true, Value.everyOfEntries_eq_true] at hs
    rw [toPlain_map]
    refine exists_map_collect fun e he => ?_
    obtain ⟨d, hd⟩ := ih e he (hs.2 e he).2
    obtain ⟨a, ha, hisKey⟩ := (hk e he).exists_atom
    have hkey : e.1.isKey = true := by rw [ha, Value.isKey, hisKey]
    rw [hd]
    exact ⟨(e.1, d), if_pos hkey⟩
  | record ht _ _ ih =>
    subst ht
    simp only [Value.showsToDict, Value.every, Bool.and_eq_true, Bool.not_eq_true',
      Value.everyOf_eq_true] at hs
    obtain ⟨⟨hshow, hkeeps⟩, hs⟩ := hs
    rw [toPlain_record, if_neg (Bool.not_eq_true _ ▸ hshow),
      RecordHead.throughFields_of_none (Option.isNone_iff_eq_none.1 hkeeps)]
    refine exists_map_collect fun p hp => ?_
    obtain ⟨d, hd⟩ := ih p hp (hs p.2 (List.of_mem_zip hp).2)
    rw [hd]
    exact ⟨_, rfl⟩

end RecordWire
