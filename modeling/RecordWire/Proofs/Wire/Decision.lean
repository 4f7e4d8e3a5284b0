import RecordWire.Proofs.Wire.Format

/-!
Reading decides the wire format: with a layout exactly the byte strings are read that spell a value,
each as the value that it spells. This holds in strict mode too, since a declared size that could
not fit is the size of no spelling.
-/

namespace RecordWire

open Reader (SpellAll SpellPair Reads)

variable {ε : Type} [TextEncoding ε]

namespace Reader

theorem reads_int (order : ByteOrder) (kind : IntKind) :
    (int order kind).Reads fun bs n =>
      bs.length = kind.width.bytes ∧ n = kind.ofOctets (order.arrange bs) :=
  ((reads_fixed order kind.width.bytes).map kind.ofOctets).congr fun bs n => by
    constructor
    · rintro ⟨cs, ⟨hl, rfl⟩, rfl⟩
      exact ⟨hl, rfl⟩
    · rintro ⟨hl, rfl⟩
      exact ⟨_, ⟨hl, rfl⟩, rfl⟩

theorem reads_ofFixed (order : ByteOrder) (width : Nat) {α : Type} (g : Bytes → α) :
    (do return g (← fixed order width) : Reader α).Reads fun bs x =>
      bs.length = width ∧ x = g (order.arrange bs) :=
  ((reads_fixed order width).map g).congr fun bs x => by
    constructor
    · rintro ⟨cs, ⟨hl, rfl⟩, rfl⟩
      exact ⟨hl, rfl⟩
    · rintro ⟨hl, rfl⟩
      exact ⟨_, ⟨hl, rfl⟩, rfl⟩

theorem reads_single (order : ByteOrder) : (single order).Reads fun bs x =>
    bs.length = 4 ∧ x = Binary64.ofSingle (UInt32.ofNat (Octets.toNat (order.arrange bs))) :=
  reads_ofFixed order 4 fun bs => Binary64.ofSingle (UInt32.ofNat (Octets.toNat bs))

theorem reads_double (order : ByteOrder) : (double order).Reads fun bs x =>
    bs.length = 8 ∧ x = ⟨UInt64.ofNat (Octets.toNat (order.arrange bs))⟩ :=
  reads_ofFixed order 8 fun bs => (⟨UInt64.ofNat (Octets.toNat bs)⟩ : Binary64)

theorem reads_bool (order : ByteOrder) : (bool order).Reads fun bs b =>
    bs.length = 1 ∧ b = decide (Octets.toNat (order.arrange bs) ≠ 0) :=
  reads_ofFixed order 1 fun bs => decide (Octets.toNat bs ≠ 0)

theorem reads_count (order : ByteOrder) :
    (count order).Reads fun bs n => n < 2 ^ 32 ∧ bs = order.countBytes n :=
  (reads_ofFixed order Primitive.countSize Octets.toNat).congr fun bs n => by
    constructor
    · rintro ⟨hl, rfl⟩
      have := Octets.toNat_lt (order.arrange bs)
      rw [ByteOrder.length_arrange, hl] at this
      exact ⟨this, (ByteOrder.countBytes_toNat order hl).symm⟩
    · rintro ⟨hn, rfl⟩
      exact ⟨ByteOrder.length_countBytes order n, (ByteOrder.toNat_countBytes order hn).symm⟩

theorem Reads.counted {α : Type} {item : Reader α} {R : Bytes → α → Prop} (hR : item.Reads R)
    {least : Nat} (hl : ∀ bs x, R bs x → least ≤ bs.length) (config : ConfigOf ε) (sized : Bool)
    (what : Declared) (make : List α → Value) :
    (do
      let n ← count config.byteOrder
      Reader.unless (!sized)
      Reader.checkFits config (n * least) what
      return make (← readItems item n) : Reader Value).Reads
    fun bs v => sized = true ∧ ∃ body items, items.length < 2 ^ 32 ∧
      bs = config.byteOrder.countBytes items.length ++ body ∧ SpellAll R body items ∧
      v = make items := by
  have hi (n : Nat) := ((reads_items hR n).map make).checkFits config what
    fun _ _ ⟨_, ⟨hn, hs⟩, _⟩ => hn ▸ hs.length_mul_le hl
  refine ((reads_count config.byteOrder).bind fun n =>
    (reads_unless (!sized)).bind fun _ => hi n).congr fun bs v => ?_
  constructor
  · rintro ⟨_, _, n, rfl, ⟨hn, rfl⟩, _, body, -, rfl, ⟨rfl, hs⟩, items, ⟨rfl, hitems⟩, rfl⟩
    exact ⟨by simpa using hs, body, items, hn, rfl, hitems, rfl⟩
  · rintro ⟨hs, body, items, hn, rfl, hitems, rfl⟩
    exact ⟨_, body, items.length, rfl, ⟨hn, rfl⟩, [], body, (), rfl, ⟨rfl, by simp [hs]⟩,
      items, ⟨rfl, hitems⟩, rfl⟩

end Reader

theorem Primitive.reads_of_fixed {α : Type} {config : ConfigOf ε} {p : Primitive} {r : Reader α}
    (g : Bytes → α) (make : α → Value) (hp : p ≠ .string)
    (hr : r.Reads fun bs x => bs.length = p.minSize ∧ x = g (config.byteOrder.arrange bs))
    (hs : ∀ bs, p.scalar? bs = some (make (g bs))) :
    (do return make (← r) : Reader Value).Reads (p.Spells config.byteOrder config.encoding) :=
  (hr.map make).congr fun bs v => by
    rw [spells_scalar hp, hs]
    constructor
    · rintro ⟨x, ⟨hl, rfl⟩, rfl⟩
      exact ⟨hl, rfl⟩
    · rintro ⟨hl, hv⟩
      exact ⟨_, ⟨hl, rfl⟩, (Option.some.inj hv).symm⟩

theorem reads_text (encoding : ε) (length : Nat) :
    (do
      let payload ← Reader.bytes length
      match TextEncoding.decode encoding payload with
      | .ok t => return .text t
      | .error why => throw (.fault why) : Reader Value).Reads
    fun bs v => bs.length = length ∧ ∃ t, TextEncoding.decode encoding bs = .ok t ∧ v = .text t := by
  have hd : ∀ payload, Reads (match TextEncoding.decode encoding payload with
      | .ok t => return .text t
      | .error why => throw (.fault why) : Reader Value)
      fun bs v => bs = [] ∧ ∃ t, TextEncoding.decode encoding payload = .ok t ∧ v = .text t := by
    intro payload
    cases h : TextEncoding.decode encoding payload with
    | ok t => exact (Reader.reads_pure (Value.text t)).congr fun bs v => by simp
    | error => exact ⟨fun hr => (by cases hr), fun hr => by simp at hr⟩
  refine ((Reader.reads_bytes length).bind hd).congr fun bs v => ?_
  constructor
  · rintro ⟨_, _, payload, rfl, ⟨hl, rfl⟩, rfl, t, ht, rfl⟩
    exact ⟨by simpa using hl, t, by simpa using ht, rfl⟩
  · rintro ⟨hl, t, ht, rfl⟩
    exact ⟨bs, [], bs, by simp, ⟨hl, rfl⟩, rfl, t, ht, rfl⟩

theorem Primitive.reads (config : ConfigOf ε) (p : Primitive) :
    (p.read config).Reads (p.Spells config.byteOrder config.encoding) := by
  cases p with
  | int kind =>
    exact reads_of_fixed kind.ofOctets Value.int (p := int kind) (by simp)
      (Reader.reads_int config.byteOrder kind) fun _ => rfl
  | float =>
    exact reads_of_fixed (fun bs => Binary64.ofSingle (UInt32.ofNat (Octets.toNat bs))) Value.float
      (p := float) (by simp) (Reader.reads_single config.byteOrder) fun _ => rfl
  | double =>
    exact reads_of_fixed (fun bs => (⟨UInt64.ofNat (Octets.toNat bs)⟩ : Binary64)) Value.float
      (p := double) (by simp) (Reader.reads_double config.byteOrder) fun _ => rfl
  | bool =>
    exact reads_of_fixed (fun bs => decide (Octets.toNat bs ≠ 0)) Value.bool
      (p := bool) (by simp) (Reader.reads_bool config.byteOrder) fun _ => rfl
  | char =>
    exact reads_of_fixed IntKind.uint8.ofOctets (fun n => .text [CodePoint.ofNat n.toNat])
      (p := char) (by simp) (Reader.reads_int config.byteOrder .uint8)
      fun bs => by rw [IntKind.ofOctets_uint8]; rfl
  | string =>
    refine ((Reader.reads_count config.byteOrder).bind fun n =>
      (reads_text config.encoding n).checkFits config .stringLength
        fun bs v h => Nat.le_of_eq h.1.symm).congr fun bs v => ?_
    constructor
    · rintro ⟨_, payload, n, rfl, ⟨hn, rfl⟩, rfl, t, ht, rfl⟩
      exact ⟨payload, t, hn, rfl, ht, rfl⟩
    · rintro ⟨payload, t, hn, rfl, ht, rfl⟩
      exact ⟨_, payload, payload.length, rfl, ⟨hn, rfl⟩, rfl, t, ht, rfl⟩

theorem reads_colour (order : ByteOrder) :
    (readColour order).Reads fun bs v => bs.length = 2 ∧ v = colourOfOctets (order.arrange bs) := by
  refine ((Reader.reads_int order .uint16).map fun n : Int => Value.tuple
    [.int (n.toNat / 2 ^ 11 : Nat), .int (n.toNat / 2 ^ 5 % 2 ^ 6 : Nat),
      .int (n.toNat % 2 ^ 5 : Nat)]).congr fun bs v => ?_
  simp only [IntKind.ofOctets_uint16]
  constructor
  · rintro ⟨n, ⟨hl, rfl⟩, rfl⟩
    exact ⟨hl, rfl⟩
  · rintro ⟨hl, rfl⟩
    exact ⟨_, ⟨hl, rfl⟩, rfl⟩

theorem RecordLayout.read_eq (config : ConfigOf ε) (type : RecordType) :
    type.read config = do
      Reader.unless (type.hides .fields)
      return .newRecord type (← readFields config type.fields) := by
  cases type
  rfl

section

variable {config : ConfigOf ε}

theorem reads_fields {fields : List Field} (h : ∀ f ∈ fields,
    (f.layout.read config).Reads (f.layout.Spells config.byteOrder config.encoding)) :
    (readFields config fields).Reads (fieldsSpell config.byteOrder config.encoding fields) := by
  induction fields with
  | nil => exact (Reader.reads_pure []).congr fun bs vs => by simp [fieldsSpell]
  | cons f fields ih =>
    obtain ⟨name, layout, default?⟩ := f
    have hf := h _ List.mem_cons_self
    have hfs := ih fun g hg => h g (List.mem_cons_of_mem _ hg)
    refine (hf.bind fun v => hfs.map (v :: ·)).congr fun bs vs => ?_
    rw [fieldsSpell_cons]
    constructor
    · rintro ⟨cs, ds, v, rfl, hv, ws, hws, rfl⟩
      exact ⟨cs, ds, v, ws, rfl, rfl, hv, hws⟩
    · rintro ⟨cs, ds, v, ws, rfl, rfl, hv, hws⟩
      exact ⟨cs, ds, v, rfl, hv, ws, hws, rfl⟩

theorem RecordLayout.reads_of_fields {type : RecordType} (h : ∀ f ∈ type.fields,
    (f.layout.read config).Reads (f.layout.Spells config.byteOrder config.encoding)) :
    (type.read config).Reads (type.Spells config.byteOrder config.encoding) := by
  rw [read_eq]
  refine ((Reader.reads_unless (type.hides .fields)).bind fun _ =>
    (reads_fields h).map (Value.newRecord type)).congr fun bs v => ?_
  rw [spells_iff]
  constructor
  · rintro ⟨_, _, -, rfl, ⟨rfl, hf⟩, values, hs, rfl⟩
    exact ⟨hf, values, hs, rfl⟩
  · rintro ⟨hf, values, hs, rfl⟩
    exact ⟨[], bs, (), rfl, ⟨rfl, hf⟩, values, hs, rfl⟩

end

/-- Reading with a layout decides the wire format, strictly or not. -/
theorem Layout.reads (config : ConfigOf ε) (codec : Codec) :
    (codec.read config).Reads (codec.Spells config.byteOrder config.encoding) := by
  induction codec using Layout.induct with
  | primitive p => exact p.reads config
  | rgb565 => exact reads_colour config.byteOrder
  | list element ih =>
    exact ih.counted (fun _ _ => minSize_le_of_spells) config element.isSized .listCount .list
  | map key value ih =>
    have h := ((key.reads config).pair ih).counted (fun _ _ => minSizes_le_of_spellPair) config
      value.isSized .mapCount fun pairs => .dict (Value.ofPairs pairs)
    have he : ∀ n,
        (do return Value.dict (← readEntries (key.read config) (value.read config) n [])) =
        (do return Value.dict (Value.ofPairs
          (← readItems (Reader.pair (key.read config) (value.read config)) n)) : Reader Value) := by
      intro n
      rw [Reader.readEntries_eq, bind_assoc]
      rfl
    simp only [Layout.read, he]
    exact h
  | record type ih =>
    refine ((Reader.reads_unless (!type.isFillable)).bind fun _ =>
      RecordLayout.reads_of_fields ih).congr fun bs v => ?_
    constructor
    · rintro ⟨_, _, -, rfl, ⟨rfl, hd⟩, hs⟩
      exact ⟨by simpa using hd, hs⟩
    · rintro ⟨hd, hs⟩
      exact ⟨[], bs, (), rfl, ⟨rfl, by simp [hd]⟩, hs⟩

theorem RecordLayout.reads (config : ConfigOf ε) (type : RecordType) :
    (type.read config).Reads (type.Spells config.byteOrder config.encoding) :=
  reads_of_fields fun f _ => f.layout.reads config

theorem RecordLayout.reads_new (config : ConfigOf ε) (type : RecordType) :
    (type.readNew config).Reads fun bs v =>
      type.isInstantiable = true ∧ type.Spells config.byteOrder config.encoding bs v := by
  refine ((Reader.reads_unless (!type.isInstantiable)).bind fun _ =>
    type.reads config).congr fun bs v => ?_
  constructor
  · rintro ⟨_, _, -, rfl, ⟨rfl, hi⟩, hs⟩
    exact ⟨by simpa using hi, hs⟩
  · rintro ⟨hi, hs⟩
    exact ⟨[], bs, (), rfl, ⟨rfl, by simp [hi]⟩, hs⟩

theorem RecordLayout.readNew_of_isInstantiable (config : ConfigOf ε) {type : RecordType}
    (h : type.isInstantiable = true) : type.readNew config = type.read config := by
  unfold readNew
  rw [h]
  rfl

end RecordWire
