import RecordWire.Proofs.Codec.Defaults
import RecordWire.Proofs.Codec.InPlace

/-!
Default values on the wire. The default of a layout that schemas declare is written in as many bytes
as its size says if each default in it is, and it is of the form in which reading returns values. What
a schema declares as a default was written once under the usual configuration, before it was accepted.
-/

namespace RecordWire

open BatchStruct (reservedNames)

def Value.isFreeOfSurrogates (v : Value) : Bool :=
  v.every fun
    | .atom (.text t) => !t.hasSurrogate
    | _ => true

/-- Under the usual configuration the value is written as the bytes, which are as many as its size
says, and no fewer than the layout needs. -/
structure Layout.Encodes (codec : Codec) (v : Value) (bs : Bytes) : Prop where
  writes : (codec.write {} v).Writes bs
  size : codec.encodedSize .utf8 v = .ok bs.length
  least : codec.minSize ≤ bs.length

namespace Primitive

variable {p : Primitive} {text : Text} {v : Value}

theorem encodes {bs : Bytes} (h : (p.write {} v).Writes bs) : (Layout.primitive p).Encodes v bs where
  writes := by rwa [Layout.write_primitive]
  size := by
    rw [Layout.encodedSize_primitive]
    exact encodedSize_of_writes h
  least := minSize_le_of_writes h

theorem exists_writes_default (config : Config) (p : Primitive) :
    ∃ bs, (p.write config p.default).Writes bs ∧ bs.length = p.minSize := by
  have hlength : p ≠ string → (∃ bs, (p.write config p.default).Writes bs) →
      ∃ bs, (p.write config p.default).Writes bs ∧ bs.length = p.minSize :=
    fun hp ⟨bs, h⟩ => ⟨bs, h, length_of_writes hp h⟩
  cases p with
  | int kind =>
    have hzero : kind.holds 0 = true := by
      obtain ⟨width, signed⟩ := kind
      cases width <;> cases signed <;> rfl
    exact hlength (by simp) ⟨_, (writes_int config kind 0).2 ⟨hzero, rfl⟩⟩
  | float =>
    exact hlength (by simp)
      ⟨_, (writes_float config .zero 0).2 ⟨0, by decide +kernel, .inr (by decide +kernel), rfl⟩⟩
  | double => exact hlength (by simp) ⟨_, (writes_double config .zero 0).2 rfl⟩
  | bool => exact hlength (by simp) ⟨_, (writes_bool config false).2 rfl⟩
  | char => exact hlength (by simp) ⟨_, (writes_char config 0).2 ⟨by decide, rfl⟩⟩
  | string =>
    have hempty : config.encoding.encode [] = some [] := by
      cases config.encoding <;> rfl
    refine ⟨_, (writes_string config []).2 ⟨[], hempty, by decide, rfl⟩, ?_⟩
    rw [List.append_nil, ByteOrder.length_countBytes]
    rfl

theorem exists_writes_of_defaultValue (h : BatchStruct.defaultValue? p text = some v) :
    ∃ bs, (p.write {} v).Writes bs := by
  unfold BatchStruct.defaultValue? at h
  split at h
  · cases h
  · split at h
    · rename_i hw
      obtain rfl := Option.some.inj h
      exact ⟨_, Output.writes_iff.2 ⟨hw, rfl⟩⟩
    · cases h

theorem Decoded.canonical (h : p.Decoded v) : p.Canonical (fun _ => True) v := by
  cases p with
  | int kind =>
    obtain ⟨n, -, rfl⟩ := h
    exact ⟨n, rfl⟩
  | float =>
    obtain ⟨x, object, rfl, -⟩ := h
    exact ⟨x, object, rfl⟩
  | double => exact h
  | bool => exact h
  | char =>
    obtain ⟨c, -, rfl⟩ := h
    exact ⟨c, rfl⟩
  | string =>
    obtain ⟨t, rfl⟩ := h
    exact ⟨t, rfl, trivial⟩

theorem Canonical.of_isFreeOfSurrogates (h : p.Canonical (fun _ => True) v)
    (hv : v.isFreeOfSurrogates = true) : p.Canonical (fun t => t.hasSurrogate = false) v := by
  cases p with
  | string =>
    obtain ⟨t, rfl, -⟩ := h
    simp only [Value.isFreeOfSurrogates, Value.every, Bool.not_eq_true'] at hv
    exact ⟨t, rfl, hv⟩
  | int | float | double | bool | char => exact h

end Primitive

theorem sizeOfFields_cons (encoding : Encoding) (f : Field) (fields : List Field) (v : Value)
    (vs : List Value) : sizeOfFields encoding (f :: fields) (v :: vs) =
      addSizes (f.layout.encodedSize encoding v) (sizeOfFields encoding fields vs) := by
  simp only [sizeOfFields, List.zip_cons_cons, List.map_cons, totalSize_cons]

theorem exists_encodes_fields {fields : List Field}
    (h : ∀ f ∈ fields, ∃ bs, f.layout.Encodes f.default bs) :
    ∃ bs, (writeFields {} fields (fields.map FieldLayout.default)).Writes bs ∧
      sizeOfFields .utf8 fields (fields.map FieldLayout.default) = .ok bs.length ∧
      Layout.minSizes fields ≤ bs.length := by
  induction fields with
  | nil => exact ⟨[], Output.writes_empty.2 rfl, rfl, Nat.le_refl _⟩
  | cons f fields ih =>
    obtain ⟨⟨cs, hf⟩, hfields⟩ := List.forall_mem_cons.1 h
    obtain ⟨ds, hwrites, hsize, hleast⟩ := ih hfields
    refine ⟨cs ++ ds, writes_fields_cons.2 ⟨cs, ds, rfl, hf.writes, hwrites⟩, ?_, ?_⟩
    · rw [List.map_cons, sizeOfFields_cons, hf.size, hsize, List.length_append]
      rfl
    · rw [minSizes_cons, List.length_append]
      exact Nat.add_le_add hf.least hleast

namespace Layout

theorem encodes_list_nil (element : Codec) : (list element).Encodes (.list []) [0, 0, 0, 0] where
  writes := writes_list.2 ⟨by decide, [], rfl, .nil⟩
  size := by
    rw [encodedSize_list]
    rfl
  least := Nat.le_refl _

theorem encodes_map_nil (key : Primitive) (value : Codec) :
    (map key value).Encodes (.dict []) [0, 0, 0, 0] where
  writes := (writes_map rfl).2 ⟨[], rfl, by decide, [], rfl, .nil⟩
  size := by
    rw [encodedSize_map]
    rfl
  least := Nat.le_refl _

end Layout

theorem RecordLayout.hides_newRecord {type : RecordType}
    (hr : ∀ n ∈ type.fieldNames, n ∉ reservedNames) {operation : Operation}
    (ho : operation ∈ Operation.own) :
    ({ type := type } : RecordHead Value).hides operation = false := by
  rw [RecordHead.hides, hides_eq_false hr ho]
  cases operation <;> rfl

theorem RecordLayout.exists_encodes_default {type : RecordType}
    (hr : ∀ n ∈ type.fieldNames, n ∉ reservedNames)
    (h : ∀ f ∈ type.fields, ∃ bs, f.layout.Encodes f.default bs) :
    ∃ bs, (Layout.record type).Encodes type.default bs := by
  obtain ⟨bs, hwrites, hsize, hleast⟩ := exists_encodes_fields h
  refine ⟨bs, ?_, ?_, ?_⟩
  · rw [default_eq]
    exact Layout.writes_newRecord.2
      ⟨hides_eq_false hr (by decide), hides_eq_false hr (by decide), hwrites⟩
  · rw [default_eq, Layout.encodedSize_record, hides_newRecord hr (by decide)]
    exact hsize
  · cases type
    exact hleast

theorem fieldsCanonicalBy_map {text : Text → Prop} {usable : Codec → Bool} {fields : List Field}
    {value : Field → Value} (h : ∀ f ∈ fields, f.layout.CanonicalBy text usable (value f)) :
    fieldsCanonicalBy text usable fields (fields.map value) := by
  induction fields with
  | nil => rfl
  | cons f fields ih =>
    obtain ⟨hf, hfields⟩ := List.forall_mem_cons.1 h
    exact fieldsCanonicalBy_cons.2 ⟨_, _, rfl, hf, ih hfields⟩

namespace Layout

theorem Schematic.isSized {codec : Codec} (h : codec.Schematic) : codec.isSized = true :=
  isSized_of_shows List.mem_cons_self (h.shows [.minEncodedSize] (by decide))

/-- The default of a layout that schemas declare is of the form in which reading returns values, if it
can be made. -/
theorem Schematic.canonical_default {codec : Codec} (h : codec.Schematic)
    (hi : codec.isInstantiable = true) :
    codec.CanonicalBy (fun _ => True) canRead codec.default := by
  induction h with
  | primitive p => exact p.decoded_default.1.canonical
  | list h => exact ⟨h.isSized, [], rfl, by simp⟩
  | map h => exact ⟨h.isSized, [], rfl, .nil, by simp⟩
  | @record type hn hr _ hd ih =>
    have hmade : type.isInstantiable = true := hi
    have hread : canRead (Layout.record type) = true := by
      rw [canRead, RecordLayout.isFillable, hmade, RecordLayout.hides_eq_false hr (by decide)]
      rfl
    refine ⟨hread, RecordLayout.canonicalBy_iff.2 ⟨_, _, type.default_eq, rfl, ?_⟩⟩
    refine fieldsCanonicalBy_map fun f hf => ?_
    obtain ⟨name, layout, default?⟩ := f
    cases default? with
    | none =>
      obtain hdefault | hlayout := (RecordLayout.isInstantiable_iff.1 hmade).2 _ hf
      · cases hdefault
      · exact ih _ hf hlayout
    | some v =>
      obtain ⟨p, hp, hv, -⟩ := hd _ hf v rfl
      dsimp only at hp
      subst hp
      exact hv.canonical

theorem CanonicalBy.of_isFreeOfSurrogates {usable : Codec → Bool} {codec : Codec} {v : Value}
    (h : codec.CanonicalBy (fun _ => True) usable v) (hv : v.isFreeOfSurrogates = true) :
    codec.CanonicalBy (fun t => t.hasSurrogate = false) usable v := by
  induction codec using Layout.induct generalizing v with
  | primitive p => exact Primitive.Canonical.of_isFreeOfSurrogates h hv
  | rgb565 => exact h
  | list element ih =>
    obtain ⟨hself, items, rfl, hitems⟩ := h
    simp only [Value.isFreeOfSurrogates, Value.every, Bool.true_and, Value.everyOf_eq_true] at hv
    exact ⟨hself, items, rfl, fun x hx => ih (hitems x hx) (hv x hx)⟩
  | map key value ih =>
    obtain ⟨hself, entries, rfl, hdistinct, hentries⟩ := h
    simp only [Value.isFreeOfSurrogates, Value.every, Bool.true_and,
      Value.everyOfEntries_eq_true] at hv
    refine ⟨hself, entries, rfl, hdistinct, fun e he => ?_⟩
    obtain ⟨⟨hkey, hn⟩, hvalue⟩ := hentries e he
    exact ⟨⟨hkey.of_isFreeOfSurrogates (hv e he).1, hn⟩, ih hvalue (hv e he).2⟩
  | record type ih =>
    obtain ⟨hself, h⟩ := h
    obtain ⟨head, values, rfl, htype, hfields⟩ := RecordLayout.canonicalBy_iff.1 h
    simp only [Value.isFreeOfSurrogates, Value.every, Bool.true_and, Value.everyOf_eq_true] at hv
    refine ⟨hself, RecordLayout.canonicalBy_iff.2 ⟨head, values, rfl, htype, ?_⟩⟩
    exact fieldsCanonicalBy_mono (fun f hf x hx hc => ih f hf hc (hv x hx)) hfields

end Layout

end RecordWire
