import RecordWire.Proofs.Codec.Canonical
import RecordWire.Proofs.Codec.Entries
import RecordWire.Proofs.Number.Single
import RecordWire.Proofs.Wire.Writing

/-!
Writing and reading of primitives and colours, one after the other in both orders. What is written
of a canonical value is read as a value that agrees with it; what is read is written again in no
more bytes, and in the same bytes unless it is a boolean or NaN.
-/

namespace RecordWire

/-- The bytes that one value is written as spell the other, which agrees with it and is written
alike. -/
def Layout.Returns (config : Config) (codec : Codec) (bs : Bytes) (v w : Value) : Prop :=
  codec.Spells config.byteOrder config.encoding bs w ∧ v.Agrees w ∧ (codec.write config w).Writes bs

theorem ByteOrder.arrange_ofNat_toNat (order : ByteOrder) {bs : Bytes} {width : Nat}
    (h : bs.length = width) :
    order.arrange (Octets.ofNat width (Octets.toNat (order.arrange bs))) = bs := by
  have hl : (order.arrange bs).length = width := by simpa using h
  rw [← hl, Octets.ofNat_toNat, arrange_arrange]

theorem ByteOrder.arrange_singleton (order : ByteOrder) (b : UInt8) : order.arrange [b] = [b] := by
  cases order <;> rfl

namespace Output

theorem length_singleBytes (order : ByteOrder) (bits : UInt32) :
    (singleBytes order bits).length = 4 := by
  simp [singleBytes]

theorem toNat_singleBytes (order : ByteOrder) (bits : UInt32) :
    UInt32.ofNat (Octets.toNat (order.arrange (singleBytes order bits))) = bits := by
  have hlt : bits.toNat < 256 ^ 4 := bits.toNat_lt
  rw [singleBytes, ByteOrder.arrange_arrange, Octets.toNat_ofNat, Nat.mod_eq_of_lt hlt,
    UInt32.ofNat_toNat]

theorem singleBytes_ofNat (order : ByteOrder) {bs : Bytes} (h : bs.length = 4) :
    singleBytes order (UInt32.ofNat (Octets.toNat (order.arrange bs))) = bs := by
  have hlt := Octets.toNat_lt (order.arrange bs)
  rw [ByteOrder.length_arrange, h] at hlt
  rw [singleBytes, UInt32.toNat_ofNat_of_lt' hlt, order.arrange_ofNat_toNat h]

theorem length_doubleBytes (order : ByteOrder) (x : Binary64) :
    (doubleBytes order x).length = 8 := by
  simp [doubleBytes]

theorem toNat_doubleBytes (order : ByteOrder) (x : Binary64) :
    (⟨UInt64.ofNat (Octets.toNat (order.arrange (doubleBytes order x)))⟩ : Binary64) = x := by
  have hlt : x.bits.toNat < 256 ^ 8 := x.bits.toNat_lt
  rw [doubleBytes, ByteOrder.arrange_arrange, Octets.toNat_ofNat, Nat.mod_eq_of_lt hlt,
    UInt64.ofNat_toNat]

theorem doubleBytes_ofNat (order : ByteOrder) {bs : Bytes} (h : bs.length = 8) :
    doubleBytes order ⟨UInt64.ofNat (Octets.toNat (order.arrange bs))⟩ = bs := by
  have hlt := Octets.toNat_lt (order.arrange bs)
  rw [ByteOrder.length_arrange, h] at hlt
  rw [doubleBytes, UInt64.toNat_ofNat_of_lt' hlt, order.arrange_ofNat_toNat h]

/-- A number is written in single precision if what is left of it there is the same, or if it is
NaN. -/
theorem writes_exactSingle {order : ByteOrder} {x : Binary64} {same : Binary64 → Bool} {v : Value}
    {bs : Bytes} :
    (exactSingle order v x same).Writes bs ↔ ∃ bits, x.toSingle? = some bits ∧
      (x.isNaN = true ∨ same (.ofSingle bits) = true) ∧ bs = singleBytes order bits := by
  unfold exactSingle
  cases h : x.toSingle? with
  | none => simp
  | some bits =>
    dsimp only
    split
    · rename_i hs
      simpa using fun _ => by simpa using hs
    · rename_i hs
      simp only [not_writes_invalid, Option.some.injEq, false_iff]
      rintro ⟨_, rfl, he, -⟩
      exact hs (by simpa using he)

end Output

namespace Primitive

open Output (writes_exactSingle)

variable {config : Config} {text : Text → Prop} {bs : Bytes} {v : Value}

theorem writes_int (config : Config) (kind : IntKind) (n : Int) :
    ((int kind).write config (.int n)).Writes bs ↔
      kind.holds n = true ∧ bs = Output.intBytes config.byteOrder kind n := by
  have hw : (int kind).write config (.int n) =
      if kind.holds n then .chunk (Output.intBytes config.byteOrder kind n)
      else .invalid (.outOfRange kind n) := rfl
  rw [hw]
  split
  · rename_i h
    simp [h]
  · rename_i h
    simp [h]

theorem writes_float (config : Config) (x : Binary64) (object : Nat) :
    (float.write config (.atom (.float x object))).Writes bs ↔ ∃ bits, x.toSingle? = some bits ∧
      (x.isNaN = true ∨ x.equal (.ofSingle bits) = true) ∧
      bs = Output.singleBytes config.byteOrder bits := writes_exactSingle

theorem write_float_of_large {n : Int} (hn : Binary64.ofInt? n = none) :
    float.write config (.int n) = .fail (.fault .tooLarge) := by
  -- The branch is picked for variables, so that no bound of the format is computed.
  generalize hp : float = p, hv : Value.int n = v
  fun_cases write config p v with
  | case4 => cases hv
  | case5 => rfl
  | case6 m x hm =>
    cases hv
    cases hn.symm.trans hm
  | case7 v hne hne' => exact (hne' n hv.symm).elim
  | _ => cases hp

theorem writes_double (config : Config) (x : Binary64) (object : Nat) :
    (double.write config (.atom (.float x object))).Writes bs ↔
      bs = Output.doubleBytes config.byteOrder x := Output.writes_chunk

theorem writes_bool (config : Config) (b : Bool) :
    (bool.write config (.bool b)).Writes bs ↔ bs = [if b then 1 else 0] := by
  cases b <;> exact Output.writes_chunk

theorem writes_char (config : Config) (c : CodePoint) :
    (char.write config (.text [c])).Writes bs ↔ c.val < 0x100 ∧ bs = [UInt8.ofNat c.val] := by
  have hw : char.write config (.text [c]) =
      if c.val < 0x100 then .chunk [UInt8.ofNat c.val] else .invalid (.notChar (.text [c])) := rfl
  rw [hw]
  split
  · rename_i h
    simp [h]
  · rename_i h
    simp [h]

section

variable {ε : Type} [TextEncoding ε]

theorem stringBytes_text (encoding : ε) (t : Text) : stringBytes encoding (.text t) =
    (TextEncoding.encode encoding t).mapError .fault := rfl

theorem write_string (config : ConfigOf ε) (v : Value) : string.write config v =
    match stringBytes config.encoding v with
    | .ok bs => .lengthPrefixed config.byteOrder bs
    | .error e => .fail e := rfl

end

theorem writes_string (config : Config) (t : Text) : (string.write config (.text t)).Writes bs ↔
    ∃ payload, config.encoding.encode t = some payload ∧ payload.length < 2 ^ 32 ∧
      bs = config.byteOrder.countBytes payload.length ++ payload := by
  rw [write_string, stringBytes_text]
  cases he : TextEncoding.encode config.encoding t with
  | error why => simp [Except.mapError, (Encoding.encode_eq_error.1 he).2]
  | ok payload =>
    simp [Except.mapError, Encoding.encode_eq_ok.1 he, Output.lengthPrefixed,
      Output.writes_counted]

theorem spells_single (config : Config) (bits : UInt32) :
    float.Spells config.byteOrder config.encoding (Output.singleBytes config.byteOrder bits)
      (.float (.ofSingle bits)) := by
  refine ⟨Output.length_singleBytes _ _, ?_⟩
  rw [scalar?, Output.toNat_singleBytes]

theorem spells_double (config : Config) (x : Binary64) :
    double.Spells config.byteOrder config.encoding (Output.doubleBytes config.byteOrder x)
      (.float x) := by
  refine ⟨Output.length_doubleBytes _ _, ?_⟩
  rw [scalar?, Output.toNat_doubleBytes]

/-- What is written of a number in single precision is read as the same number; of NaN some NaN. -/
theorem exists_returns_float {x : Binary64} {object : Nat}
    (hw : (float.write config (.atom (.float x object))).Writes bs) :
    ∃ y, float.Spells config.byteOrder config.encoding bs (.float y) ∧
      (x = y ∨ x.isNaN = true ∧ y.isNaN = true) ∧ (float.write config (.float y)).Writes bs := by
  obtain ⟨bits, hbits, hx, rfl⟩ := (writes_float config x object).1 hw
  have hspells := spells_single config bits
  by_cases hn : x.isNaN = true
  · obtain ⟨hnan, hsame⟩ := Binary64.toSingle?_ofSingle_of_isNaN hn hbits
    refine ⟨_, hspells, .inr ⟨hn, hnan⟩, ?_⟩
    exact (writes_float config _ 0).2 ⟨bits, hsame, .inl hnan, rfl⟩
  · have hy : Binary64.ofSingle bits = x :=
      Binary64.ofSingle_eq_of_equal hbits (hx.resolve_left hn)
    rw [hy] at hspells
    exact ⟨x, hspells, .inl rfl, (writes_float config x 0).2 ⟨bits, hbits, hx, rfl⟩⟩

/-- What is written of a canonical value is read as one that agrees with it. Unless it is NaN it is
the same value, as an object of its own. -/
theorem exists_returns {p : Primitive} (h : p.Canonical config.encoding.Recovers v)
    (hw : (p.write config v).Writes bs) :
    ∃ w, p.Spells config.byteOrder config.encoding bs w ∧ v.Agrees w ∧
      (p.write config w).Writes bs ∧ (v.isNaN = false → w = v.fresh) := by
  cases p with
  | int kind =>
    obtain ⟨n, rfl⟩ := h
    obtain ⟨hn, rfl⟩ := (writes_int config kind n).1 hw
    refine ⟨.int n, ⟨IntKind.length_intBytes _ _ _, ?_⟩, .atom rfl, hw, fun _ => rfl⟩
    rw [scalar?, IntKind.ofOctets_intBytes _ hn]
  | float =>
    obtain ⟨x, object, rfl⟩ := h
    obtain ⟨y, hspells, hagrees, hwrites⟩ := exists_returns_float hw
    refine ⟨.float y, hspells, .atom hagrees, hwrites, fun hn => ?_⟩
    rcases hagrees with rfl | ⟨hnan, -⟩
    · rfl
    · rw [Value.isNaN, hnan] at hn
      cases hn
  | double =>
    obtain ⟨x, object, rfl⟩ := h
    obtain rfl := (writes_double config x object).1 hw
    exact ⟨.float x, spells_double config x, .atom (.inl rfl), hw, fun _ => rfl⟩
  | bool =>
    obtain ⟨b, rfl⟩ := h
    obtain rfl := (writes_bool config b).1 hw
    refine ⟨.bool b, ⟨rfl, ?_⟩, .atom rfl, hw, fun _ => rfl⟩
    rw [ByteOrder.arrange_singleton]
    cases b <;> rfl
  | char =>
    obtain ⟨c, rfl⟩ := h
    obtain ⟨hc, rfl⟩ := (writes_char config c).1 hw
    refine ⟨.text [c], ⟨rfl, ?_⟩, .atom rfl, hw, fun _ => rfl⟩
    have hn : Octets.toNat [UInt8.ofNat c.val] = c.val := by
      simp only [Octets.toNat, Encoding.toNat_ofNat hc, Nat.mul_zero, Nat.add_zero]
    rw [ByteOrder.arrange_singleton, scalar?, hn, Encoding.ofNat_eq_of_val (c := c) rfl]
  | string =>
    obtain ⟨t, rfl, ht⟩ := h
    obtain ⟨payload, hp, hl, rfl⟩ := (writes_string config t).1 hw
    exact ⟨.text t, ⟨payload, t, hl, rfl, Encoding.decode_eq_ok.2 (ht payload hp), rfl⟩, .atom rfl,
      hw, fun _ => rfl⟩

/-- Every four bytes are those of the number that they spell in single precision, unless it is NaN.
-/
theorem exists_writes_float (config : Config) (hl : bs.length = 4) {x : Binary64}
    (hx : Binary64.ofSingle (UInt32.ofNat (Octets.toNat (config.byteOrder.arrange bs))) = x) :
    ∃ out, (float.write config (.float x)).Writes out ∧ out.length = 4 ∧
      (x.isNaN = false → out = bs) := by
  by_cases hn : x.isNaN = true
  · obtain ⟨bits, hbits⟩ := Binary64.exists_toSingle?_of_isNaN hn
    refine ⟨_, (writes_float config x 0).2 ⟨bits, hbits, .inl hn, rfl⟩,
      Output.length_singleBytes _ _, fun hf => ?_⟩
    rw [hn] at hf
    cases hf
  · rw [Bool.not_eq_true] at hn
    have hbits := Binary64.toSingle?_ofSingle (hx ▸ hn)
    rw [hx] at hbits
    refine ⟨bs, (writes_float config x 0).2 ⟨_, hbits, .inr ?_, ?_⟩, hl, fun _ => rfl⟩
    · rw [hx]
      exact Binary64.equal_self hn
    · exact (Output.singleBytes_ofNat _ hl).symm

/-- What is read is canonical, and is written in no more bytes than it was read from. Unless it is a
boolean or NaN it is written in the same bytes. -/
theorem exists_writes_of_spells (ht : config.encoding.isTotal = true) {p : Primitive}
    (h : p.Spells config.byteOrder config.encoding bs v) :
    p.Canonical config.encoding.Recovers v ∧ ∃ out, (p.write config v).Writes out ∧
      out.length ≤ bs.length ∧ (p ≠ bool → v.isNaN = false → out = bs) := by
  cases p with
  | int kind =>
    obtain ⟨hl, hv⟩ := h
    obtain rfl := Option.some.inj hv
    refine ⟨⟨_, rfl⟩, bs, (writes_int config kind _).2 ⟨?_, ?_⟩, Nat.le_refl _, fun _ _ => rfl⟩
    · exact IntKind.holds_ofOctets ((ByteOrder.length_arrange _ _).trans hl)
    · exact (IntKind.intBytes_ofOctets _ hl).symm
  | float =>
    obtain ⟨hl, hv⟩ := h
    obtain rfl := Option.some.inj hv
    obtain ⟨out, hw, hlength, he⟩ := exists_writes_float config hl rfl
    exact ⟨⟨_, _, rfl⟩, out, hw, Nat.le_of_eq (hlength.trans hl.symm), fun _ hn => he hn⟩
  | double =>
    obtain ⟨hl, hv⟩ := h
    obtain rfl := Option.some.inj hv
    refine ⟨⟨_, _, rfl⟩, bs, (writes_double config _ 0).2 ?_, Nat.le_refl _, fun _ _ => rfl⟩
    exact (Output.doubleBytes_ofNat _ hl).symm
  | bool =>
    obtain ⟨hl, hv⟩ := h
    obtain rfl := Option.some.inj hv
    exact ⟨⟨_, rfl⟩, _, (writes_bool config _).2 rfl, Nat.le_of_eq hl.symm,
      fun hb => absurd rfl hb⟩
  | char =>
    obtain ⟨hl, hv⟩ := h
    obtain ⟨b, rfl⟩ := List.length_eq_one_iff.1 hl
    rw [ByteOrder.arrange_singleton] at hv
    obtain rfl := Option.some.inj hv
    have hb := b.toNat_lt
    have hn : (CodePoint.ofNat (Octets.toNat [b])).val = b.toNat := by
      simp only [Octets.toNat, Nat.mul_zero, Nat.add_zero]
      exact CodePoint.val_ofNat (by omega)
    refine ⟨⟨_, rfl⟩, [b], (writes_char config _).2 ⟨?_, ?_⟩, Nat.le_refl _, fun _ _ => rfl⟩
    · omega
    · rw [hn, UInt8.ofNat_toNat]
  | string =>
    obtain ⟨payload, t, hl, rfl, hd, rfl⟩ := h
    have hd := Encoding.decode_eq_ok.1 hd
    refine ⟨⟨t, rfl, Encoding.recovers_of_decode ht hd⟩, _,
      (writes_string config t).2 ⟨payload, Encoding.encode_decode ht hd, hl, rfl⟩, Nat.le_refl _,
      fun _ _ => rfl⟩

end Primitive

theorem disjunction_natCast (m n : Nat) : disjunction m n = (m ||| n : Nat) := rfl

theorem colourWord_natCast {r g b : Nat} (hg : g < 2 ^ 6) (hb : b < 2 ^ 5) :
    colourWord r g b = (2 ^ 11 * r + 2 ^ 5 * g + b : Nat) := by
  have hr : (r : Int) * 2 ^ 11 = (2 ^ 11 * r : Nat) := by omega
  have hg' : (g : Int) * 2 ^ 5 = (2 ^ 5 * g : Nat) := by omega
  have hlow : 2 ^ 5 * g < 2 ^ 11 := by omega
  have hsum : 2 ^ 11 * r + 2 ^ 5 * g = 2 ^ 5 * (2 ^ 6 * r + g) := by omega
  rw [colourWord, hr, hg', disjunction_natCast, ← Nat.two_pow_add_eq_or_of_lt hlow, hsum,
    disjunction_natCast, ← Nat.two_pow_add_eq_or_of_lt hb]

theorem writes_colour {order : ByteOrder} {r g b : Nat} {bs : Bytes} (hr : r < 2 ^ 5)
    (hg : g < 2 ^ 6) (hb : b < 2 ^ 5) :
    (writeColour order (.tuple [.int r, .int g, .int b])).Writes bs ↔
      bs = Output.intBytes order .uint16 (2 ^ 11 * r + 2 ^ 5 * g + b : Nat) := by
  have hh : IntKind.uint16.holds (2 ^ 11 * r + 2 ^ 5 * g + b : Nat) = true := by
    rw [IntKind.uint16, IntKind.holds_unsigned]
    change _ ∧ _ < (2 : Int) ^ 16
    omega
  have hw : writeColour order (.tuple [.int r, .int g, .int b]) =
      if IntKind.uint16.holds (colourWord r g b) then
        .chunk (Output.intBytes order .uint16 (colourWord r g b))
      else .invalid (.unpackable (.int (colourWord r g b)) IntKind.uint16.letter) := rfl
  rw [hw, colourWord_natCast hg hb, if_pos hh, Output.writes_chunk]

theorem colourOfOctets_of_toNat {r g b : Nat} {bs : Bytes} (hg : g < 2 ^ 6) (hb : b < 2 ^ 5)
    (h : Octets.toNat bs = 2 ^ 11 * r + 2 ^ 5 * g + b) :
    colourOfOctets bs = .tuple [.int r, .int g, .int b] := by
  have h₁ : Octets.toNat bs / 2 ^ 11 = r := by omega
  have h₂ : Octets.toNat bs / 2 ^ 5 % 2 ^ 6 = g := by omega
  have h₃ : Octets.toNat bs % 2 ^ 5 = b := by omega
  simp only [colourOfOctets, h₁, h₂, h₃]

section

variable {config : Config} {bs : Bytes} {v : Value}

theorem Layout.returns_colour (h : Layout.rgb565.Recovers config.encoding v)
    (hw : (Layout.rgb565.write config v).Writes bs) :
    Layout.rgb565.Returns config bs v v := by
  obtain ⟨r, g, b, hr, hg, hb, rfl⟩ := h
  have hagrees : ∀ n : Int, (Value.int n).Agrees (.int n) := fun n => .atom rfl
  refine ⟨?_, .tuple (.cons (hagrees r) (.cons (hagrees g) (.cons (hagrees b) .nil))), hw⟩
  rw [Layout.write_rgb565, writes_colour hr hg hb] at hw
  subst hw
  refine ⟨IntKind.length_intBytes _ _ _, (colourOfOctets_of_toNat hg hb ?_).symm⟩
  have hn := IntKind.toNat_intBytes config.byteOrder .uint16 (2 ^ 11 * r + 2 ^ 5 * g + b : Nat)
  change _ = _ % (2 : Int) ^ 16 at hn
  omega

theorem Layout.writes_of_spells_colour
    (h : Layout.rgb565.Spells config.byteOrder config.encoding bs v) :
    Layout.rgb565.Recovers config.encoding v ∧ (Layout.rgb565.write config v).Writes bs := by
  obtain ⟨hl, rfl⟩ := h
  have hlt := Octets.toNat_lt (config.byteOrder.arrange bs)
  rw [ByteOrder.length_arrange, hl] at hlt
  generalize hn : Octets.toNat (config.byteOrder.arrange bs) = n at hlt
  have hr : n / 2 ^ 11 < 2 ^ 5 := by omega
  have hg : n / 2 ^ 5 % 2 ^ 6 < 2 ^ 6 := by omega
  have hb : n % 2 ^ 5 < 2 ^ 5 := by omega
  have hword : 2 ^ 11 * (n / 2 ^ 11) + 2 ^ 5 * (n / 2 ^ 5 % 2 ^ 6) + n % 2 ^ 5 = n := by omega
  rw [colourOfOctets_of_toNat hg hb (hn.trans hword.symm)]
  refine ⟨⟨_, _, _, hr, hg, hb, rfl⟩, ?_⟩
  have hof : Output.intBytes config.byteOrder .uint16
      (IntKind.uint16.ofOctets (config.byteOrder.arrange bs)) = bs :=
    IntKind.intBytes_ofOctets _ hl
  rw [IntKind.ofOctets_uint16, hn] at hof
  rw [Layout.write_rgb565, writes_colour hr hg hb, hword, hof]

end

end RecordWire
