import RecordWire.Proofs.Text.Utf8

/-!
Encoding and decoding undo each other. A text without surrogates is decoded from its bytes under
every encoding. Under the single-byte encodings and UTF-8, where every byte string is the bytes of
some text, the bytes are encoded from that text again, whatever they are.
-/

namespace RecordWire.Encoding

theorem encode_cons {encoding : Encoding} {c : CodePoint} {t : Text} {bs : Bytes} :
    encode encoding (c :: t) = some bs ↔ ∃ cs ds, encodePoint encoding c = some cs ∧
      encode encoding t = some ds ∧ bs = cs ++ ds := by
  rw [encode]
  cases encodePoint encoding c <;> cases encode encoding t <;> simp [eq_comm]

theorem encode_cons_of {encoding : Encoding} {c : CodePoint} {t : Text} {cs ds : Bytes}
    (hc : encodePoint encoding c = some cs) (ht : encode encoding t = some ds) :
    encode encoding (c :: t) = some (cs ++ ds) := encode_cons.2 ⟨cs, ds, hc, ht, rfl⟩

section

variable {c : CodePoint} {cs rest : Bytes}

theorem escapedByte?_of_not_surrogate (hc : c.isSurrogate = false) : escapedByte? c = none := by
  have hs : ¬ (0xD800 ≤ c.val ∧ c.val ≤ 0xDFFF) := by simpa [CodePoint.isSurrogate] using hc
  have he : ¬ (0xDC80 ≤ c.val ∧ c.val ≤ 0xDCFF) := by omega
  simp [escapedByte?, he]

theorem decodeBelow_of_lt {limit : Nat} (hl : limit ≤ 0x100) (h : c.val < limit) :
    decodeBelow limit ([UInt8.ofNat c.val] ++ rest) = c :: decodeBelow limit rest := by
  have hv : (UInt8.ofNat c.val).toNat = c.val := toNat_ofNat (by omega)
  simp only [decodeBelow, List.singleton_append, List.map_cons, hv, h, if_true, ofByte]
  rw [ofNat_eq_of_val (c := c) rfl]

theorem unit_unitBytes (bigEndian : Bool) {u : Nat} (hu : u < 0x10000) :
    ∃ a b, unitBytes bigEndian u = [a, b] ∧ unit bigEndian a b = u := by
  have hl : (UInt8.ofNat (u % 0x100)).toNat = u % 0x100 := toNat_ofNat (by omega)
  have hh : (UInt8.ofNat (u / 0x100)).toNat = u / 0x100 := toNat_ofNat (by omega)
  cases bigEndian with
  | false =>
    refine ⟨_, _, rfl, ?_⟩
    simp only [unit, hl, hh, Bool.false_eq_true, if_false]
    omega
  | true =>
    refine ⟨_, _, rfl, ?_⟩
    simp only [unit, hl, hh, if_true]
    omega

theorem decodeUtf16_encodePoint {bigEndian : Bool} (hc : c.isSurrogate = false)
    (h : encodePoint.utf16 c bigEndian = some cs) :
    decodeUtf16 bigEndian (cs ++ rest) = (decodeUtf16 bigEndian rest).map (c :: ·) := by
  have hs : ¬ (0xD800 ≤ c.val ∧ c.val ≤ 0xDFFF) := by simpa [CodePoint.isSurrogate] using hc
  have hlt := c.isLt
  simp only [encodePoint.utf16, hc, Bool.false_eq_true, if_false] at h
  split at h
  · rename_i hbmp
    obtain rfl := Option.some.inj h
    obtain ⟨a, b, hab, hu⟩ := unit_unitBytes bigEndian hbmp
    have hhigh : isHighUnit c.val = false := by simp [isHighUnit]; omega
    have hlow : isLowUnit c.val = false := by simp [isLowUnit]; omega
    rw [hab, List.cons_append, List.singleton_append, decodeUtf16.eq_def]
    simp [hu, hhigh, hlow, ofNat_eq_of_val (c := c) rfl]
  · rename_i hbmp
    obtain rfl := Option.some.inj h
    obtain ⟨a, b, hab, hu⟩ := unit_unitBytes bigEndian
      (u := 0xD800 + (c.val - 0x10000) / 0x400) (by omega)
    obtain ⟨d, e, hde, hv⟩ := unit_unitBytes bigEndian
      (u := 0xDC00 + (c.val - 0x10000) % 0x400) (by omega)
    have hhigh : isHighUnit (0xD800 + (c.val - 0x10000) / 0x400) = true := by
      simp [isHighUnit]; omega
    have hlow : isLowUnit (0xDC00 + (c.val - 0x10000) % 0x400) = true := by
      simp [isLowUnit]; omega
    have hval : ofUnits (0xD800 + (c.val - 0x10000) / 0x400)
        (0xDC00 + (c.val - 0x10000) % 0x400) = c := ofNat_eq_of_val (by omega)
    rw [hab, hde, decodeUtf16.eq_def]
    simp [hu, hv, hhigh, hlow, hval]

theorem decode_append {encoding : Encoding} (hc : c.isSurrogate = false)
    (h : encodePoint encoding c = some cs) :
    decode encoding (cs ++ rest) = (decode encoding rest).map (c :: ·) := by
  cases encoding with
  | utf8 =>
    simp only [encodePoint, hc, Bool.false_eq_true, if_false, Option.some.injEq] at h
    subst h
    exact congrArg some (decodeUtf8_utf8Bytes hc rest)
  | latin1 =>
    simp only [encodePoint, escapedByte?_of_not_surrogate hc] at h
    split at h
    · rename_i hlt
      obtain rfl := Option.some.inj h
      exact congrArg some (decodeBelow_of_lt (Nat.le_refl _) hlt)
    · cases h
  | ascii =>
    simp only [encodePoint, escapedByte?_of_not_surrogate hc] at h
    split at h
    · rename_i hlt
      obtain rfl := Option.some.inj h
      exact congrArg some (decodeBelow_of_lt (by omega) hlt)
    · cases h
  | utf16le | utf16be => exact decodeUtf16_encodePoint hc h

end

/-- A text without surrogates is decoded from the bytes that it is encoded as. -/
theorem decode_encode {encoding : Encoding} {t : Text} (ht : t.hasSurrogate = false) {bs : Bytes}
    (h : encode encoding t = some bs) : decode encoding bs = some t := by
  induction t generalizing bs with
  | nil =>
    obtain rfl := Option.some.inj h
    cases encoding <;> rfl
  | cons c t ih =>
    obtain ⟨cs, ds, hcs, hds, rfl⟩ := encode_cons.1 h
    simp only [Text.hasSurrogate, List.any_cons, Bool.or_eq_false_iff] at ht
    rw [decode_append ht.1 hcs, ih ht.2 hds]
    rfl

theorem encodePoint_escape {encoding : Encoding} {b : UInt8}
    (he : encoding = utf8 ∨ encoding = ascii) (hb : ¬ b < 0x80) :
    encodePoint encoding (escape b) = some [b] := by
  rw [lt_ascii_iff] at hb
  have hlt := b.toNat_lt
  have hv : (escape b).val = 0xDC00 + b.toNat := CodePoint.val_ofNat (by omega)
  have hs : (escape b).isSurrogate = true := by
    simp only [CodePoint.isSurrogate, hv, Bool.and_eq_true, decide_eq_true_eq]
    omega
  have hbyte : escapedByte? (escape b) = some b := by
    have hr : 0xDC80 ≤ 0xDC00 + b.toNat ∧ 0xDC00 + b.toNat ≤ 0xDCFF := by omega
    simp [escapedByte?, hv, hr]
  have hn : ¬ 0xDC00 + b.toNat < 0x80 := by omega
  rcases he with rfl | rfl
  · simp [encodePoint, hs, hbyte]
  · simp [encodePoint, hv, hbyte]

theorem encode_decodeUtf8 (bs : Bytes) : encode utf8 (decodeUtf8 bs) = some bs := by
  fun_induction decodeUtf8 bs with
  | case1 => rfl
  | case2 a r ha ih => exact encode_cons_of (encodePoint_ofByte ha) ih
  | case3 a ha => exact encode_cons_of (encodePoint_escape (.inl rfl) ha) rfl
  | case4 a ha b s hp ih => exact encode_cons_of (encodePoint_ofPair hp) ih
  | case5 a ha b hp ih => exact encode_cons_of (encodePoint_escape (.inl rfl) ha) ih
  | case6 a ha b hp c t ht ih => exact encode_cons_of (encodePoint_ofTriple ht) ih
  | case7 a ha b hp c ht ih => exact encode_cons_of (encodePoint_escape (.inl rfl) ha) ih
  | case8 a ha b hp c ht d u hq ih => exact encode_cons_of (encodePoint_ofQuadruple hq) ih
  | case9 a ha b hp c ht d u hq ih => exact encode_cons_of (encodePoint_escape (.inl rfl) ha) ih

theorem encodePoint_ofByte_of_lt {encoding : Encoding} {limit : Nat} {b : UInt8}
    (he : encoding = latin1 ∧ limit = 0x100 ∨ encoding = ascii ∧ limit = 0x80)
    (hb : b.toNat < limit) : encodePoint encoding (ofByte b) = some [b] := by
  have hlt := b.toNat_lt
  have hv : (ofByte b).val = b.toNat := CodePoint.val_ofNat (by omega)
  rcases he with ⟨rfl, rfl⟩ | ⟨rfl, rfl⟩
  · simp [encodePoint, hv, hb]
  · simp [encodePoint, hv, hb]

theorem encode_decodeBelow {encoding : Encoding} {limit : Nat}
    (he : encoding = latin1 ∧ limit = 0x100 ∨ encoding = ascii ∧ limit = 0x80) (bs : Bytes) :
    encode encoding (decodeBelow limit bs) = some bs := by
  induction bs with
  | nil => rfl
  | cons b bs ih =>
    have hb : encodePoint encoding (if b.toNat < limit then ofByte b else escape b) = some [b] := by
      split
      · rename_i hb
        exact encodePoint_ofByte_of_lt he hb
      · rename_i hb
        have hlt := b.toNat_lt
        rcases he with ⟨rfl, rfl⟩ | ⟨rfl, rfl⟩
        · omega
        · exact encodePoint_escape (.inr rfl) fun h => hb (lt_ascii_iff.1 h)
    exact encode_cons_of hb ih

def isTotal : Encoding → Bool
  | utf8 | latin1 | ascii => true
  | utf16le | utf16be => false

theorem isSome_decode {encoding : Encoding} (h : encoding.isTotal = true) (bs : Bytes) :
    (encoding.decode bs).isSome = true := by
  cases encoding <;> first | rfl | cases h

/-- Bytes that are decoded under an encoding that decodes all bytes are encoded again as they were.
-/
theorem encode_decode {encoding : Encoding} (h : encoding.isTotal = true) {bs : Bytes} {t : Text}
    (hd : decode encoding bs = some t) : encode encoding t = some bs := by
  cases encoding with
  | utf8 =>
    obtain rfl := Option.some.inj hd
    exact encode_decodeUtf8 bs
  | latin1 =>
    obtain rfl := Option.some.inj hd
    exact encode_decodeBelow (.inl ⟨rfl, rfl⟩) bs
  | ascii =>
    obtain rfl := Option.some.inj hd
    exact encode_decodeBelow (.inr ⟨rfl, rfl⟩) bs
  | utf16le | utf16be => cases h

end RecordWire.Encoding
