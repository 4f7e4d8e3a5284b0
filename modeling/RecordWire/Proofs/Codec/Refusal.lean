import RecordWire.Proofs.Codec.Slots
import RecordWire.Proofs.Sorting.Defined
import RecordWire.Proofs.Wire.Shortage

/-!
Errors of writing. A value that does not fit its layout is refused as an invalid value, unless one of
the operations that come before the check, or stand for it, fails by itself: encoding a text, making a
number of an integer, comparing keys, taking an entry apart, asking a record for its fields, or putting
the refused value into words.
-/

namespace RecordWire

theorem WireError.hasClass_invalid {why : InvalidValue} :
    (WireError.invalid why).HasClass .invalidValue ↔ ∀ x ∈ why.shownValues, x.isShowable = true := by
  rw [← List.all_eq_true]
  change _ ↔ (WireError.invalid why).isShowable = true
  constructor
  · rintro ⟨message, hasCause, details, h⟩
    unfold Report.ofWire at h
    split at h
    · assumption
    · cases h
  · intro h
    exact ⟨_, _, _, if_pos h⟩

namespace Output

variable {a b : Output} {e : WireError}

theorem error_append (h : (a ++ b).error? = some e) : a.error? = some e ∨ b.error? = some e := by
  obtain ⟨chunks, _ | d⟩ := a
  · exact .inr h
  · exact .inl h

theorem exists_error_of_concat {α : Type} {f : α → Output} {xs : List α}
    (h : (concat (xs.map f)).error? = some e) : ∃ x ∈ xs, (f x).error? = some e := by
  induction xs with
  | nil => cases h
  | cons x xs ih =>
    rw [List.map_cons, concat] at h
    rcases error_append h with hx | hxs
    · exact ⟨x, List.mem_cons_self, hx⟩
    · obtain ⟨y, hy, he⟩ := ih hxs
      exact ⟨y, List.mem_cons_of_mem _ hy, he⟩

def Refuses (a : Output) : Prop := ∀ e, a.error? = some e → ∃ why, e = .invalid why

theorem refuses_chunk (bs : Bytes) : (chunk bs).Refuses := by
  rintro e ⟨⟩

theorem refuses_invalid (why : InvalidValue) : (invalid why).Refuses := by
  rintro e ⟨⟩
  exact ⟨why, rfl⟩

theorem Refuses.append (ha : a.Refuses) (hb : b.Refuses) : (a ++ b).Refuses :=
  fun e h => (error_append h).elim (ha e) (hb e)

theorem refuses_count (order : ByteOrder) (n : Nat) : (count order n).Refuses := by
  unfold count
  split
  · exact refuses_chunk _
  · exact refuses_invalid _

theorem refuses_exactSingle (order : ByteOrder) (v : Value) (x : Binary64)
    (same : Binary64 → Bool) : (exactSingle order v x same).Refuses := by
  unfold exactSingle
  split
  · exact refuses_invalid _
  · dsimp only
    split
    · exact refuses_chunk _
    · exact refuses_invalid _

theorem refuses_rawDouble (order : ByteOrder) (v : Value) : (rawDouble order v).Refuses := by
  unfold rawDouble
  split
  · exact refuses_chunk _
  · exact refuses_invalid _

theorem refuses_rawInt (order : ByteOrder) (kind : IntKind) (v : Value) :
    (rawInt order kind v).Refuses := by
  unfold rawInt
  split
  · split
    · exact refuses_chunk _
    · exact refuses_invalid _
  · exact refuses_invalid _

end Output

namespace Value

variable {v whole : Value} {parts : List Value}

theorem at?_of_parts? (hv : v.parts? = some parts) (hd : ∀ entries, v ≠ dict entries) (i : Nat) :
    v.at? i = some parts[i]? := by
  cases v with
  | dict entries => exact absurd rfl (hd entries)
  | _ =>
    rw [at?, hv, Option.map_some]
    exact hd

theorem exists_at? (hv : v.parts? = some parts) (i : Nat) : ∃ part?, v.at? i = some part? := by
  by_cases hd : ∃ entries, v = dict entries
  · obtain ⟨entries, rfl⟩ := hd
    exact ⟨_, rfl⟩
  · exact ⟨_, at?_of_parts? hv (not_exists.1 hd) i⟩

/-- Of two parts that are given for an entry, one can be missing only from a dictionary, which is asked
for the keys 0 and 1. -/
theorem error_of_pair {e : WireError} (h : pair whole v = .error e) :
    (∃ why, e = .invalid why) ∨ e = .fault .noEntry ∧ ∃ entries, v = dict entries ∧
      entries.length = 2 ∧ (v.at? 0 = some Option.none ∨ v.at? 1 = some Option.none) := by
  unfold pair at h
  split at h
  · cases h
    exact .inl ⟨_, rfl⟩
  · rename_i parts hparts
    split at h
    · cases h
      exact .inl ⟨_, rfl⟩
    · rename_i hlength
      rw [not_not] at hlength
      split at h
      · cases h
      · rename_i hmissing
        cases h
        obtain ⟨a, ha⟩ := exists_at? hparts 0
        obtain ⟨b, hb⟩ := exists_at? hparts 1
        have hnone : a = Option.none ∨ b = Option.none := by
          cases a with
          | none => exact .inl rfl
          | some a =>
            cases b with
            | none => exact .inr rfl
            | some b => exact (hmissing a b ha hb).elim
        refine .inr ⟨rfl, ?_⟩
        by_cases hd : ∃ entries, v = dict entries
        · obtain ⟨entries, rfl⟩ := hd
          cases hparts
          rw [List.length_map] at hlength
          refine ⟨entries, rfl, hlength, ?_⟩
          rcases hnone with rfl | rfl
          · exact .inl ha
          · exact .inr hb
        · -- All other values have their parts at 0 and 1.
          rw [at?_of_parts? hparts (not_exists.1 hd), Option.some.injEq] at ha hb
          rcases hnone with rfl | rfl
          · exact absurd (List.getElem?_eq_none_iff.1 ha) (by omega)
          · exact absurd (List.getElem?_eq_none_iff.1 hb) (by omega)

theorem error_of_pairs {e : WireError} (h : v.pairs = .error e) :
    (∃ why, e = .invalid why) ∨ e = .fault .noEntry ∧ ∃ parts entries, v.parts? = some parts ∧
      dict entries ∈ parts ∧ entries.length = 2 ∧
      ((dict entries).at? 0 = some Option.none ∨ (dict entries).at? 1 = some Option.none) := by
  unfold pairs at h
  split at h
  · cases h
  · cases h
    exact .inl ⟨_, rfl⟩
  · cases h
    exact .inl ⟨_, rfl⟩
  · split at h
    · cases h
      exact .inl ⟨_, rfl⟩
    · rename_i parts hparts
      obtain ⟨part, hpart, he⟩ := exists_error_of_collect h
      rcases error_of_pair he with hinvalid | ⟨rfl, entries, rfl, hl, hm⟩
      · exact .inl hinvalid
      · exact .inr ⟨rfl, parts, entries, hparts, hpart, hl, hm⟩

theorem error_of_items {layout : Text} {e : WireError} (h : v.items layout = .error e) :
    ∃ why, e = .invalid why := by
  unfold items at h
  split at h
  · cases h
    exact ⟨_, rfl⟩
  · cases h
    exact ⟨_, rfl⟩
  · cases h
    exact ⟨_, rfl⟩
  · split at h
    · cases h
      exact ⟨_, rfl⟩
    · cases h

end Value

/-- Why writing a value with a layout fails without the value being refused. -/
inductive Layout.Escapes {ε : Type} [TextEncoding ε] (config : ConfigOf ε) :
    Codec → Value → WireError → Prop
  /-- A text that the encoding cannot write. -/
  | text {t : Text} {why : Fault} (h : TextEncoding.encode config.encoding t = .error why) :
    Escapes config (.primitive .string) (.text t) (.fault why)
  /-- An integer that is too large for a number. -/
  | number {n : Int} (h : Binary64.ofInt? n = none) :
    Escapes config (.primitive .float) (.int n) (.fault .tooLarge)
  /-- Keys that are to be sorted and have no order. -/
  | keys {key : Primitive} {value : Codec} {v : Value} {pairs : List (Value × Value)}
    {e f : Value × Value} (hs : config.sortMapKeys = true) (hv : v.pairs = .ok pairs)
    (he : e ∈ pairs) (hf : f ∈ pairs) (h : e.1.before? f.1 = none) :
    Escapes config (.map key value) v (.fault .unsupported)
  /-- A dictionary of two entries in the place of a pair. -/
  | entry {key : Primitive} {value : Codec} {v : Value} {parts : List Value}
    {entries : List (Value × Value)} (hv : v.parts? = some parts) (hp : .dict entries ∈ parts)
    (hl : entries.length = 2)
    (h : (Value.dict entries).at? 0 = some none ∨ (Value.dict entries).at? 1 = some none) :
    Escapes config (.map key value) v (.fault .noEntry)
  /-- A record that something hides an operation of writing from. -/
  | record {type : RecordType} {head : RecordHead Value} {values : List Value}
    (hk : head.type.isKindOf type = true)
    (h : head.hides .writeData = true ∨ head.hides .fields = true) :
    Escapes config (.record type) (.record head values) (.fault .unsupported)
  /-- A colour that does not have three integers for its parts. -/
  | colour {v : Value} {why : Fault}
    (h : ∀ r g b, v.parts? = some [r, g, b] →
      r.toInt? = none ∨ g.toInt? = none ∨ b.toInt? = none) :
    Escapes config .rgb565 v (.fault why)

variable {ε : Type} [TextEncoding ε] {config : ConfigOf ε} {v : Value} {e : WireError}

theorem Primitive.error_of_stringBytes {encoding : ε} (h : stringBytes encoding v = .error e) :
    (∃ why, e = .invalid why) ∨
      ∃ why t, e = .fault why ∧ v = .text t ∧ TextEncoding.encode encoding t = .error why := by
  unfold stringBytes at h
  split at h
  · rename_i t
    cases ht : TextEncoding.encode encoding t with
    | ok bs =>
      rw [ht] at h
      cases h
    | error why =>
      rw [ht] at h
      cases h
      exact .inr ⟨why, t, rfl, rfl, ht⟩
  · cases h
  · cases h
  · cases h
    exact .inl ⟨_, rfl⟩

theorem Primitive.error_of_write {p : Primitive} : (p.write config v).error? = some e →
    (∃ why, e = .invalid why) ∨ (Layout.primitive p).Escapes config v e := by
  fun_cases write config p v with
  | case4 | case6 => exact fun h => .inl (Output.refuses_exactSingle _ _ _ _ e h)
  | case5 n hn =>
    rintro ⟨⟩
    exact .inr (.number hn)
  | case8 | case9 => exact fun h => .inl (Output.refuses_rawDouble _ _ e h)
  | case16 v payload hp =>
    exact fun h =>
      .inl ((Output.refuses_count _ _).append (Output.refuses_chunk _) e h)
  | case17 v d hd =>
    rintro ⟨⟩
    rcases error_of_stringBytes hd with hinvalid | ⟨why, t, rfl, rfl, ht⟩
    · exact .inl hinvalid
    · exact .inr (.text ht)
  | case2 | case12 | case13 => exact fun h => .inl (Output.refuses_chunk _ e h)
  | _ => exact fun h => .inl (Output.refuses_invalid _ e h)

theorem error_of_writeColour (h : (writeColour config.byteOrder v).error? = some e) :
    (∃ why, e = .invalid why) ∨ Layout.rgb565.Escapes config v e := by
  unfold writeColour at h
  split at h
  · cases h
    rename_i hparts
    exact .inr (.colour fun r g b hv => by cases hparts.symm.trans hv)
  · rename_i r g b hparts
    split at h
    · exact .inl (Output.refuses_rawInt _ _ _ e h)
    · cases h
      rename_i hints
      refine .inr (.colour fun r' g' b' hv => ?_)
      cases hparts.symm.trans hv
      cases hr : r.toInt? with
      | none => exact .inl rfl
      | some m =>
        cases hg : g.toInt? with
        | none => exact .inr (.inl rfl)
        | some n =>
          cases hb : b.toInt? with
          | none => exact .inr (.inr rfl)
          | some k => exact (hints m n k hr hg hb).elim
  · cases h
    rename_i parts hne hparts
    exact .inr (.colour fun r g b hv => (hne r g b (Option.some.inj (hparts.symm.trans hv))).elim)

theorem error_of_writeEntries {entries : List (Value × Output)}
    (h : (writeEntries config entries).error? = some e) :
    (∃ why, e = .invalid why) ∨ (∃ x ∈ entries, x.2.error? = some e) ∨
      e = .fault .unsupported ∧ config.sortMapKeys = true ∧
        ∃ x ∈ entries, ∃ y ∈ entries, x.1.before? y.1 = none := by
  unfold writeEntries at h
  split at h
  · rename_i ha
    cases h
    unfold arrangeEntries at ha
    split at ha
    · exact .inr (.inr ⟨rfl, ‹_›, exists_of_sort?_eq_none ha⟩)
    · cases ha
  · rename_i arranged ha
    rcases Output.error_append h with hcount | hbody
    · exact .inl (Output.refuses_count _ _ e hcount)
    · obtain ⟨x, hx, he⟩ := Output.exists_error_of_concat hbody
      exact .inr (.inl ⟨x, (perm_of_arrangeEntries ha).mem_iff.1 hx, he⟩)

namespace Layout

/-- Writing fails on a value that does not fit, or else as a slot does that writing comes to. -/
theorem error_of_write (codec : Codec) (v : Value) : ∀ e, (codec.write config v).error? = some e →
    (∃ why, e = .invalid why) ∨
      ∃ c w, codec.Reaches v c w ∧ (c.write config w).error? = some e ∧ c.Escapes config w e := by
  induction codec, v using induct_passes with
  | step codec v ih =>
    intro e h
    -- An error that is no refusal is one of this slot, or of a slot that writing goes on to.
    have hself : codec.Escapes config v e →
        ∃ c w, codec.Reaches v c w ∧ (c.write config w).error? = some e ∧ c.Escapes config w e :=
      fun he => ⟨codec, v, .self codec v, h, he⟩
    have hpass : ∀ c w, codec.Passes v c w → (c.write config w).error? = some e →
        (∃ why, e = .invalid why) ∨
          ∃ c w, codec.Reaches v c w ∧ (c.write config w).error? = some e ∧
            c.Escapes config w e := by
      intro c w hp hw
      refine (ih c w hp e hw).imp_right ?_
      rintro ⟨d, x, hr, hd⟩
      exact ⟨d, x, .pass hp hr, hd⟩
    cases codec with
    | primitive p =>
      rw [write_primitive] at h
      exact (Primitive.error_of_write h).imp_right hself
    | rgb565 =>
      rw [write_rgb565] at h
      exact (error_of_writeColour h).imp_right hself
    | list element =>
      rw [write_list] at h
      split at h
      · cases h
        exact .inl (Value.error_of_items ‹_›)
      · rename_i items hv
        rcases Output.error_append h with hcount | hbody
        · exact .inl (Output.refuses_count _ _ e hcount)
        · obtain ⟨x, hx, he⟩ := Output.exists_error_of_concat hbody
          exact hpass element x (.item hv hx) he
    | map key value =>
      rw [write_map] at h
      split at h
      · cases h
        rcases Value.error_of_pairs ‹_› with hinvalid | ⟨rfl, parts, entries, hparts, hp, hl, hm⟩
        · exact .inl hinvalid
        · exact .inr (hself (.entry hparts hp hl hm))
      · rename_i pairs hv
        rcases error_of_writeEntries h with hinvalid | ⟨_, hx, he⟩ | ⟨rfl, hs, _, hx, _, hy, hxy⟩
        · exact .inl hinvalid
        · obtain ⟨p, hp, rfl⟩ := List.mem_map.1 hx
          rcases Output.error_append he with hkey | hvalue
          · rw [← write_primitive] at hkey
            exact hpass (.primitive key) p.1 (.key hv hp) hkey
          · exact hpass value p.2 (.value hv hp) hvalue
        · obtain ⟨p, hp, rfl⟩ := List.mem_map.1 hx
          obtain ⟨q, hq, rfl⟩ := List.mem_map.1 hy
          exact .inr (hself (.keys hs hv hp hq hxy))
    | record type =>
      by_cases hr : ∃ head values, v = .record head values
      · obtain ⟨head, values, rfl⟩ := hr
        rw [write_record] at h
        split at h
        · rename_i hk
          split at h
          · rename_i hh
            cases h
            exact .inr (hself (.record hk (Bool.or_eq_true_iff.1 hh)))
          · obtain ⟨p, hp, he⟩ := Output.exists_error_of_concat h
            exact hpass p.1.layout p.2 (.field hk hp) he
        · exact .inl (Output.refuses_invalid _ e h)
      · rw [write_record_of_ne config type fun head values hv => hr ⟨head, values, hv⟩] at h
        exact .inl (Output.refuses_invalid _ e h)

theorem Escapes.exists_fault {codec : Codec} (h : codec.Escapes config v e) :
    ∃ why, e = .fault why := by
  cases h <;> exact ⟨_, rfl⟩

/-- An error of writing is not reported as an invalid value exactly if the message about the value
cannot be put into words, or if it is the error of a slot that writing comes to, in which the value is
not refused but an operation on it fails. -/
theorem not_refused_iff (config : Config) (codec : Codec) (v : Value) (e : WireError)
    (h : (codec.write config v).error? = some e) :
    ¬ e.HasClass .invalidValue ↔
      (∃ why, e = .invalid why ∧ ∃ x ∈ why.shownValues, x.isShowable = false) ∨
      ∃ c w, codec.Reaches v c w ∧ (c.write config w).error? = some e ∧ c.Escapes config w e := by
  constructor
  · intro hc
    rcases error_of_write codec v e h with ⟨why, rfl⟩ | hescapes
    · rw [WireError.hasClass_invalid] at hc
      simp only [not_forall, Bool.not_eq_true] at hc
      obtain ⟨x, hx, hshow⟩ := hc
      exact .inl ⟨why, rfl, x, hx, hshow⟩
    · exact .inr hescapes
  · rintro (⟨why, rfl, x, hx, hshow⟩ | ⟨c, w, -, -, he⟩)
    · rw [WireError.hasClass_invalid]
      intro hall
      rw [hall x hx] at hshow
      cases hshow
    · obtain ⟨why, rfl⟩ := he.exists_fault
      exact WireError.not_hasClass_fault

/-- Keys of two families in the entries of a map in a list. -/
theorem not_refused_mixed_keys :
    let config : Config := {}
    let codec : Codec := .list (.map .string (.primitive .bool))
    let entries : List Value :=
      [.tuple [.text "a", .bool true], .tuple [.int 1, .bool false]]
    let v : Value := .tuple [.list entries]
    let e : WireError := .fault .unsupported
    (codec.write config v).error? = some e ∧ ¬ e.HasClass .invalidValue ∧
      ∃ c w, codec.Reaches v c w ∧ (c.write config w).error? = some e ∧ c.Escapes config w e := by
  intro config codec entries v e
  have hpairs : (Value.list entries).pairs =
      .ok [(.text "a", .bool true), (.int 1, .bool false)] := rfl
  have hmap : (Layout.map .string (.primitive .bool)).write config (.list entries) = .fail e := by
    simp only [write_map, hpairs, write_primitive, List.map]
    rfl
  have hw : (codec.write config v).error? = some e := by
    simp only [codec, v, write_list, Value.items, Value.parts?, List.map, hmap]
    rfl
  have hc : ¬ e.HasClass .invalidValue := WireError.not_hasClass_fault
  have hwhy := (not_refused_iff config codec v e hw).1 hc
  refine ⟨hw, hc, hwhy.resolve_left ?_⟩
  rintro ⟨why, he, -⟩
  simp only [e, reduceCtorEq] at he

/-- An integer that is larger than every number is not refused as an invalid value. -/
theorem not_refused_large_integer :
    ((Layout.primitive .float).write {} (.int (2 ^ 1024))).error? = some (.fault .tooLarge) ∧
      ¬ (WireError.fault .tooLarge).HasClass .invalidValue := by
  have hlarge : Binary64.ofInt? (2 ^ 1024) = none := by decide +kernel
  rw [write_primitive, Primitive.write_float_of_large hlarge]
  exact ⟨rfl, WireError.not_hasClass_fault⟩

end Layout

end RecordWire
