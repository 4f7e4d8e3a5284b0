import RecordWire.Proofs.Codec.Slots
import RecordWire.Service.Basic

/-!
Sizes. The number of bytes that a value is written as depends on the encoding of texts, and on nothing
else in the configuration. The size that is asked for is that number, if every record that writing
comes to can be asked.
-/

namespace RecordWire

open Reader (SpellAll SpellPair)

section

variable {α : Type} {R S : Bytes → α → Prop} {bs cs : Bytes} {xs : List α}

theorem Reader.SpellAll.length_eq
    (hRS : ∀ cs ds, ∀ x ∈ xs, R cs x → S ds x → cs.length = ds.length)
    (hR : SpellAll R bs xs) (hS : SpellAll S cs xs) : bs.length = cs.length := by
  induction hR generalizing cs with
  | nil =>
    cases hS
    rfl
  | cons head tail ih =>
    cases hS with
    | cons head' tail' =>
      have h₁ := hRS _ _ _ List.mem_cons_self head head'
      have h₂ := ih (fun cs ds x hx => hRS cs ds x (List.mem_cons_of_mem _ hx)) tail'
      simp only [List.length_append]
      omega

theorem totalSize_cons (a : Except WireError Nat) (as : List (Except WireError Nat)) :
    totalSize (a :: as) = addSizes a (totalSize as) := by
  cases a with
  | error e => rfl
  | ok m =>
    simp only [totalSize, collect, addSizes]
    cases collect as <;> rfl

/-- A size that is at most a length, and is the length exactly under a condition. -/
structure Accounts (size : Except WireError Nat) (length : Nat) (P : Prop) : Prop where
  le : ∀ n, size = .ok n → n ≤ length
  iff : size = .ok length ↔ P

namespace Accounts

variable {a b : Except WireError Nat} {m n : Nat} {P Q : Prop}

theorem of_eq (h : a = .ok n) : Accounts a n True where
  le := by
    rintro k hk
    rw [h] at hk
    exact Nat.le_of_eq (Except.ok.inj hk).symm
  iff := by simp [h]

theorem congr (h : Accounts a n P) (hPQ : P ↔ Q) : Accounts a n Q := ⟨h.le, h.iff.trans hPQ⟩

theorem add (ha : Accounts a m P) (hb : Accounts b n Q) :
    Accounts (addSizes a b) (m + n) (P ∧ Q) := by
  cases a with
  | error e => exact ⟨fun k hk => (by cases hk), by simp [addSizes, ← ha.iff]⟩
  | ok i =>
    cases b with
    | error e => exact ⟨fun k hk => (by cases hk), by simp [addSizes, Except.map, ← hb.iff]⟩
    | ok j =>
      have hi := ha.le i rfl
      have hj := hb.le j rfl
      refine ⟨fun k hk => ?_, ?_⟩
      · have hk : i + j = k := Except.ok.inj hk
        omega
      · rw [← ha.iff, ← hb.iff]
        simp only [addSizes, Except.map, Except.ok.injEq]
        omega

theorem total {size : α → Except WireError Nat} {P : α → Prop}
    (h : ∀ cs, ∀ x ∈ xs, R cs x → Accounts (size x) cs.length (P x)) (hR : SpellAll R bs xs) :
    Accounts (totalSize (xs.map size)) bs.length (∀ x ∈ xs, P x) := by
  induction hR with
  | nil => exact (of_eq rfl).congr (by simp)
  | cons head tail ih =>
    have hx := h _ _ List.mem_cons_self head
    have hxs := ih fun cs x hx => h cs x (List.mem_cons_of_mem _ hx)
    rw [List.map_cons, totalSize_cons, List.length_append]
    exact (hx.add hxs).congr (by simp)

theorem counted (h : Accounts a n P) : Accounts (a.map (Primitive.countSize + ·)) (4 + n) P := by
  cases a with
  | error e => exact ⟨fun k hk => (by cases hk), by simp [Except.map, ← h.iff]⟩
  | ok i =>
    have hi := h.le i rfl
    refine ⟨fun k hk => ?_, ?_⟩
    · obtain rfl := Except.ok.inj hk
      simp only [Primitive.countSize]
      omega
    · rw [← h.iff]
      simp only [Except.map, Primitive.countSize, Except.ok.injEq]
      omega

end Accounts

end

section

variable {config config' : Config} {bs cs : Bytes} {v : Value}

theorem Output.length_of_exactSingle {order : ByteOrder} {x : Binary64} {same : Binary64 → Bool}
    (h : (exactSingle order v x same).Writes bs) : bs.length = 4 := by
  unfold exactSingle at h
  split at h
  · exact absurd h not_writes_invalid
  · dsimp only at h
    split at h
    · rw [writes_chunk.1 h, length_singleBytes]
    · exact absurd h not_writes_invalid

theorem Output.length_of_rawDouble {order : ByteOrder} (h : (rawDouble order v).Writes bs) :
    bs.length = 8 := by
  unfold rawDouble at h
  split at h
  · rw [writes_chunk.1 h, length_doubleBytes]
  · exact absurd h not_writes_invalid

theorem Output.length_of_rawInt {order : ByteOrder} {kind : IntKind}
    (h : (rawInt order kind v).Writes bs) : bs.length = kind.width.bytes := by
  unfold rawInt at h
  split at h
  · split at h
    · rw [writes_chunk.1 h, IntKind.length_intBytes]
    · exact absurd h not_writes_invalid
  · exact absurd h not_writes_invalid

theorem Primitive.encodedSize_of_writes {p : Primitive} :
    (p.write config v).Writes bs → p.encodedSize config.encoding v = .ok bs.length := by
  fun_cases write config p v with
  | case2 kind n =>
    intro h
    rw [Output.writes_chunk.1 h, IntKind.length_intBytes]
    rfl
  | case4 | case6 =>
    intro h
    rw [Output.length_of_exactSingle h]
    rfl
  | case8 | case9 =>
    intro h
    rw [Output.length_of_rawDouble h]
    rfl
  | case12 | case13 =>
    intro h
    rw [Output.writes_chunk.1 h]
    rfl
  | case16 v payload hp =>
    intro h
    obtain ⟨-, body, rfl, hb⟩ := Output.writes_counted.1 h
    rw [Output.writes_chunk.1 hb, List.length_append, ByteOrder.length_countBytes, encodedSize, hp]
    rfl
  | _ => exact fun h => absurd h Output.not_writes_fail

theorem length_of_writeColour {order : ByteOrder} (h : (writeColour order v).Writes bs) :
    bs.length = 2 := by
  unfold writeColour at h
  split at h
  · exact absurd h Output.not_writes_fail
  · split at h
    · exact Output.length_of_rawInt h
    · exact absurd h Output.not_writes_fail
  · exact absurd h Output.not_writes_fail

namespace Layout

theorem EntryWrites.length_eq {key : Primitive} {value : Codec} {e : Value × Value}
    (he : config'.encoding = config.encoding)
    (ih : ∀ cs ds, (value.write config e.2).Writes cs → (value.write config' e.2).Writes ds →
      cs.length = ds.length)
    (h : EntryWrites config key value bs e) (h' : EntryWrites config' key value cs e) :
    bs.length = cs.length := by
  obtain ⟨ks, xs, rfl, hk, hx⟩ := h
  obtain ⟨ks', xs', rfl, hk', hx'⟩ := h'
  have hkey := Primitive.encodedSize_of_writes hk'
  rw [he, Primitive.encodedSize_of_writes hk] at hkey
  have hvalue := ih _ _ hx hx'
  simp only [List.length_append, Except.ok.inj hkey, hvalue]

theorem length_of_writes (he : config'.encoding = config.encoding) (codec : Codec) (v : Value) :
    ∀ bs cs, (codec.write config v).Writes bs → (codec.write config' v).Writes cs →
      bs.length = cs.length := by
  induction codec, v using induct_passes with
  | step codec v ih =>
    intro bs cs h h'
    cases codec with
    | primitive p =>
      rw [write_primitive] at h h'
      have hp := Primitive.encodedSize_of_writes h'
      rw [he, Primitive.encodedSize_of_writes h] at hp
      exact Except.ok.inj hp
    | rgb565 =>
      rw [write_rgb565] at h h'
      rw [length_of_writeColour h, length_of_writeColour h']
    | list element =>
      obtain ⟨items, hv⟩ := exists_items_of_writes h
      obtain ⟨-, body, rfl, hbody⟩ := (writes_items hv).1 h
      obtain ⟨-, body', rfl, hbody'⟩ := (writes_items hv).1 h'
      have hlength := hbody.length_eq (fun cs ds x hx => ih element x (.item hv hx) cs ds) hbody'
      simp only [List.length_append, ByteOrder.length_countBytes, hlength]
    | map key value =>
      obtain ⟨pairs, hv⟩ := exists_pairs_of_writes h
      obtain ⟨arranged, ha, -, body, rfl, hbody⟩ := (writes_map hv).1 h
      obtain ⟨arranged', ha', -, body', rfl, hbody'⟩ := (writes_map hv).1 h'
      -- Each of the two writes the pairs in an order of its own.
      have hperm := perm_of_arrangeEntries ha
      obtain ⟨out, hout, hl⟩ :=
        hbody'.exists_perm ((perm_of_arrangeEntries ha').trans hperm.symm)
      have hlength := hbody.length_eq (S := EntryWrites config' key value) (fun cs ds e hmem =>
        EntryWrites.length_eq he (ih value e.2 (.value hv (hperm.mem_iff.1 hmem)))) hout
      simp only [List.length_append, ByteOrder.length_countBytes, hlength, hl]
    | record type =>
      obtain ⟨head, values, rfl, hk, -, -, hbody⟩ := writes_kind.1 h
      obtain ⟨_, _, hr, -, -, -, hbody'⟩ := writes_kind.1 h'
      cases hr
      exact hbody.length_eq (fun cs ds p hp => ih _ _ (.field hk hp) cs ds) hbody'

/-- A record that writing a value comes to can be asked for its size, and goes through its fields for
it, or has nothing set in the place of them but something without parts, where it writes nothing. -/
inductive CanSize (config : Config) : Codec → Value → Prop
  | parts {codec : Codec} {v : Value}
    (hself : ∀ type head values, codec = .record type → v = .record head values →
      head.hides .encodedSize = false ∧ head.others.lookup Operation.fieldsMember = none)
    (hparts : ∀ c w, codec.Passes v c w → CanSize config c w) : CanSize config codec v
  | nothing {type : RecordType} {head : RecordHead Value} {values : List Value} {w : Value}
    (hself : head.hides .encodedSize = false)
    (hw : head.others.lookup Operation.fieldsMember = some w) (hempty : w.asFields = .ok ())
    (hwrites : (writeFields config head.type.fields values).Writes []) :
    CanSize config (.record type) (.record head values)

theorem canSize_iff_of_ne {codec : Codec} (hc : ∀ type, codec ≠ .record type) :
    codec.CanSize config v ↔ ∀ c w, codec.Passes v c w → c.CanSize config w := by
  constructor
  · intro h
    cases h with
    | parts hself hparts => exact hparts
    | nothing => exact absurd rfl (hc _)
  · exact fun h => .parts (fun type _ _ ht => absurd ht (hc type)) h

theorem canSize_record {type : RecordType} {head : RecordHead Value} {values : List Value}
    (hk : head.type.isKindOf type = true) :
    (record type).CanSize config (.record head values) ↔ head.hides .encodedSize = false ∧
      match head.others.lookup Operation.fieldsMember with
      | none => ∀ p ∈ head.type.fields.zip values, p.1.layout.CanSize config p.2
      | some w => w.asFields = .ok () ∧ (writeFields config head.type.fields values).Writes [] := by
  constructor
  · intro h
    cases h with
    | parts hself hparts =>
      obtain ⟨hh, hl⟩ := hself type head values rfl rfl
      rw [hl]
      exact ⟨hh, fun p hp => hparts _ _ (.field hk hp)⟩
    | nothing hh hw hempty hwrites =>
      rw [hw]
      exact ⟨hh, hempty, hwrites⟩
  · rintro ⟨hh, h⟩
    cases hl : head.others.lookup Operation.fieldsMember with
    | none =>
      rw [hl] at h
      refine .parts ?_ ?_
      · rintro _ _ _ - ⟨⟩
        exact ⟨hh, hl⟩
      · rintro _ _ ⟨-, hp⟩
        exact h _ ‹_›
    | some w =>
      rw [hl] at h
      exact .nothing hh hl h.1 h.2

theorem accounts_record {type : RecordType} {head : RecordHead Value} {values : List Value}
    (hk : head.type.isKindOf type = true)
    (hbody : SpellAll (fun cs p => (p.1.layout.write config p.2).Writes cs) bs
      (head.type.fields.zip values))
    (ih : ∀ cs, ∀ p ∈ head.type.fields.zip values, (p.1.layout.write config p.2).Writes cs →
      Accounts (p.1.layout.encodedSize config.encoding p.2) cs.length
        (p.1.layout.CanSize config p.2)) :
    Accounts ((record type).encodedSize config.encoding (.record head values)) bs.length
      ((record type).CanSize config (.record head values)) := by
  rw [encodedSize_record, canSize_record hk]
  cases hh : head.hides .encodedSize with
  | true => exact ⟨fun n hn => (by cases hn), by simp⟩
  | false =>
    simp only [Bool.false_eq_true, if_false, true_and]
    cases hl : head.others.lookup Operation.fieldsMember with
    | none =>
      rw [RecordHead.throughFields_of_none hl]
      exact .total ih hbody
    | some w =>
      cases hw : w.asFields with
      | error why =>
        rw [RecordHead.throughFields_of_error hl hw]
        exact ⟨fun n hn => (by cases hn), by simp [hw]⟩
      | ok u =>
        rw [RecordHead.throughFields_of_ok hl hw]
        have hbs : 0 = bs.length ↔ (writeFields config head.type.fields values).Writes [] := by
          have hwrites := writes_fields.2 hbody
          constructor
          · intro h
            rwa [List.eq_nil_of_length_eq_zero h.symm] at hwrites
          · intro h
            rw [hwrites.unique h, List.length_nil]
        refine ⟨fun n hn => ?_, ?_⟩
        · obtain rfl := Except.ok.inj hn
          exact Nat.zero_le _
        · simp [hbs, hw]

/-- The size that is asked for accounts for what is written, as far as records can be asked. -/
theorem accounts_of_writes (codec : Codec) (v : Value) : ∀ bs, (codec.write config v).Writes bs →
    Accounts (codec.encodedSize config.encoding v) bs.length (codec.CanSize config v) := by
  induction codec, v using induct_passes with
  | step codec v ih =>
    intro bs h
    cases codec with
    | primitive p =>
      rw [write_primitive] at h
      rw [encodedSize_primitive, canSize_iff_of_ne (by simp)]
      refine (Accounts.of_eq (Primitive.encodedSize_of_writes h)).congr (iff_of_true trivial ?_)
      rintro _ _ ⟨⟩
    | rgb565 =>
      rw [write_rgb565] at h
      rw [encodedSize_rgb565, canSize_iff_of_ne (by simp)]
      refine (Accounts.of_eq (by rw [length_of_writeColour h])).congr (iff_of_true trivial ?_)
      rintro _ _ ⟨⟩
    | list element =>
      obtain ⟨items, hv⟩ := exists_items_of_writes h
      obtain ⟨-, body, rfl, hbody⟩ := (writes_items hv).1 h
      have htotal := Accounts.total (fun cs x hx => ih element x (.item hv hx) cs) hbody
      rw [encodedSize_list, Value.parts?_of_items hv, canSize_iff_of_ne (by simp),
        List.length_append, ByteOrder.length_countBytes]
      refine htotal.counted.congr ⟨fun hx c w hp => ?_, fun hp x hx => hp _ _ (.item hv hx)⟩
      cases hp with
      | item hv' hx' =>
        cases hv.symm.trans hv'
        exact hx _ hx'
    | map key value =>
      obtain ⟨pairs, hv⟩ := exists_pairs_of_writes h
      obtain ⟨arranged, ha, -, body, rfl, hbody⟩ := (writes_map hv).1 h
      obtain ⟨out, hout, hl⟩ := hbody.exists_perm (perm_of_arrangeEntries ha)
      have hentry : ∀ cs, ∀ e ∈ pairs, EntryWrites config key value cs e →
          Accounts (addSizes (key.encodedSize config.encoding e.1)
            (value.encodedSize config.encoding e.2)) cs.length
            (True ∧ value.CanSize config e.2) := by
        rintro _ e he ⟨ks, xs, rfl, hk, hx⟩
        rw [List.length_append]
        exact (Accounts.of_eq (Primitive.encodedSize_of_writes hk)).add
          (ih value e.2 (.value hv he) xs hx)
      rw [encodedSize_map, hv, canSize_iff_of_ne (by simp), List.length_append,
        ByteOrder.length_countBytes, ← hl]
      refine (Accounts.total hentry hout).counted.congr ⟨fun he c w hp => ?_, fun hp e he =>
        ⟨trivial, hp _ _ (.value hv he)⟩⟩
      cases hp with
      | key =>
        refine (canSize_iff_of_ne (by simp)).2 ?_
        rintro _ _ ⟨⟩
      | value hv' he' =>
        cases hv.symm.trans hv'
        exact (he _ he').2
    | record type =>
      obtain ⟨head, values, rfl, hk, -, -, hbody⟩ := writes_kind.1 h
      exact accounts_record hk hbody fun cs p hp => ih _ _ (.field hk hp) cs

end Layout

namespace Value

/-- A record can be asked for its size, and so can the records in it. -/
def CanSize (config : Config) : Value → Prop
  | record head values => (Layout.record head.type).CanSize config (record head values)
  | _ => False

theorem exists_record_of_encode (h : (v.encode config).Writes bs) :
    ∃ head values, v = record head values ∧
      SpellAll (fun cs p => (p.1.layout.write config p.2).Writes cs) bs
        (head.type.fields.zip values) := by
  cases v with
  | record head values =>
    rw [encode] at h
    split at h
    · exact absurd h Output.not_writes_fail
    · exact ⟨head, values, rfl, writes_fields.1 h⟩
  | _ => exact absurd h Output.not_writes_fail

theorem encodedSize_eq (encoding : Encoding) (head : RecordHead Value) (values : List Value) :
    (record head values).encodedSize encoding =
      (Layout.record head.type).encodedSize encoding (record head values) := by
  rw [Layout.encodedSize_record]
  rfl

theorem accounts_of_encode (h : (v.encode config).Writes bs) :
    Accounts (v.encodedSize config.encoding) bs.length (v.CanSize config) := by
  obtain ⟨head, values, rfl, hbody⟩ := exists_record_of_encode h
  rw [encodedSize_eq]
  exact Layout.accounts_record head.type.isKindOf_self hbody fun cs p _ =>
    Layout.accounts_of_writes p.1.layout p.2 cs

theorem length_of_encode (he : config'.encoding = config.encoding)
    (h : (v.encode config).Writes bs) (h' : (v.encode config').Writes cs) :
    bs.length = cs.length := by
  obtain ⟨head, values, rfl, hbody⟩ := exists_record_of_encode h
  obtain ⟨_, _, hr, hbody'⟩ := exists_record_of_encode h'
  cases hr
  exact hbody.length_eq (fun cs ds p _ => Layout.length_of_writes he p.1.layout p.2 cs ds) hbody'

end Value

/-- The size of a value that is written is the number of bytes that it is written in, exactly if every
record on the way can be asked for its size and goes through its fields for it. Only the encoding of
texts makes a difference for the number. The same holds of records that are encoded by themselves. -/
theorem Layout.encodedSize_write (config : Config) :
    (∀ (codec : Codec) v bs, (codec.write config v).Writes bs →
      (codec.encodedSize config.encoding v = .ok bs.length ↔ codec.CanSize config v) ∧
      ∀ config' : Config, config'.encoding = config.encoding →
        ∀ cs, (codec.write config' v).Writes cs → cs.length = bs.length) ∧
    ∀ (v : Value) bs, (v.encode config).Writes bs →
      (v.encodedSize config.encoding = .ok bs.length ↔ v.CanSize config) ∧
      ∀ config' : Config, config'.encoding = config.encoding →
        ∀ cs, (v.encode config').Writes cs → cs.length = bs.length := by
  constructor
  · intro codec v bs h
    refine ⟨(accounts_of_writes codec v bs h).iff, ?_⟩
    exact fun config' he cs h' => (length_of_writes he codec v bs cs h h').symm
  · intro v bs h
    refine ⟨(Value.accounts_of_encode h).iff, ?_⟩
    exact fun config' he cs h' => (Value.length_of_encode he h h').symm

/-- Pairs for a map, a tuple for a list, bytes for a string, a boolean for an integer, and a record
that extends the type of its slot. -/
theorem Layout.encodedSize_write_extended :
    let base : RecordType := ⟨⟨0, "B"⟩, "B", "B", [], [⟨"a", .primitive (.int .uint8), none⟩]⟩
    let type : RecordType := ⟨⟨1, "D"⟩, "D", "D", [⟨0, "B"⟩],
      [⟨"a", .primitive (.int .uint8), none⟩, ⟨"b", .primitive (.int .uint16), none⟩]⟩
    let codec : Codec := .map .string (.list (.record base))
    let v : Value := .list [.tuple [.bytes [0x61], .tuple [.newRecord type [.bool true, .int 5]]]]
    let config : Config := { sortMapKeys := false }
    let bs : Bytes := [1, 0, 0, 0, 1, 0, 0, 0, 0x61, 1, 0, 0, 0, 1, 5, 0]
    (codec.write config v).Writes bs ∧ codec.CanSize config v ∧
      codec.encodedSize config.encoding v = .ok 16 ∧
      ∀ cs, (codec.write { config with byteOrder := .big } v).Writes cs → cs.length = 16 := by
  intro base type codec v config bs
  have hpairs : v.pairs = .ok [(.bytes [0x61], .tuple [.newRecord type [.bool true, .int 5]])] :=
    rfl
  have hfields : writeFields config type.fields [.bool true, .int 5] = ⟨[[1], [5, 0]], none⟩ := by
    simp only [writeFields, type, List.zip_cons_cons, List.zip_nil_right, List.map,
      Layout.write_primitive]
    rfl
  have hrecord : (Layout.record base).write config (.newRecord type [.bool true, .int 5]) =
      ⟨[[1], [5, 0]], none⟩ := by
    rw [Layout.write_record]
    exact hfields
  have hw : (codec.write config v).Writes bs := by
    simp only [codec, Layout.write_map, hpairs, List.map, Layout.write_list, Value.items,
      Value.parts?, hrecord, writeEntries, arrangeEntries, config, Bool.false_eq_true, if_false,
      List.length_cons, List.length_nil]
    exact Output.writes_iff.2 ⟨rfl, rfl⟩
  have hs : codec.encodedSize config.encoding v = .ok 16 := by
    simp only [codec, Layout.encodedSize_map, hpairs, List.map, Layout.encodedSize_list,
      Value.parts?, Layout.encodedSize_record, sizeOfFields, type, List.zip_cons_cons,
      List.zip_nil_right, Layout.encodedSize_primitive]
    rfl
  obtain ⟨hsize, hlength⟩ := (Layout.encodedSize_write config).1 codec v bs hw
  exact ⟨hw, hsize.1 hs, hs, hlength { config with byteOrder := .big } rfl⟩

/-- A record with a field that has the name of the operation is written, and has no size. One with an
empty tuple set in the place of its fields is written too, and has no bytes by its size. -/
theorem Layout.encodedSize_write_hidden :
    let type : RecordType :=
      ⟨⟨0, "R"⟩, "R", "R", [], [⟨"encoded_size", .primitive (.int .uint8), none⟩]⟩
    let v : Value := .newRecord type [.int 5]
    let plain : RecordType := ⟨⟨1, "Q"⟩, "Q", "Q", [], [⟨"a", .primitive (.int .uint8), none⟩]⟩
    let w : Value := .record { type := plain, others := [("_fields", .tuple [])] } [.int 5]
    (((Layout.record type).write {} v).Writes [5] ∧ (v.encode {}).Writes [5] ∧
      (Layout.record type).encodedSize .utf8 v = .error (.fault .unsupported) ∧
      v.encodedSize .utf8 = .error (.fault .unsupported)) ∧
    (w.encode {}).Writes [5] ∧ w.encodedSize .utf8 = .ok 0 := by
  intro type v plain w
  have hfields (name : Text) :
      (writeFields {} [⟨name, .primitive (.int .uint8), none⟩] [.int 5]).Writes [5] := by
    simp only [writeFields, List.zip_cons_cons, List.zip_nil_right, List.map,
      Layout.write_primitive]
    exact Output.writes_iff.2 ⟨rfl, rfl⟩
  refine ⟨⟨?_, hfields _, ?_, rfl⟩, hfields _, rfl⟩
  · exact Layout.writes_newRecord.2 ⟨rfl, rfl, hfields _⟩
  · rw [Layout.encodedSize_record]
    rfl

end

end RecordWire
