import RecordWire.Text.Encoding

/-!
The byte sequences of UTF-8 by the numbers in them. A sequence of two, three or four bytes that is
well formed is the one that the code point in it is written as, and the other way around.
-/

namespace RecordWire.Encoding

theorem toNat_ofNat {n : Nat} (h : n < 0x100) : (UInt8.ofNat n).toNat = n :=
  UInt8.toNat_ofNat_of_lt' h

theorem isTail_iff {b : UInt8} : isTail b = true ↔ 0x80 ≤ b.toNat ∧ b.toNat ≤ 0xBF := by
  simp [isTail, UInt8.le_iff_toNat_le]

theorem isPair_iff {a b : UInt8} : isPair a b = true ↔
    (0xC2 ≤ a.toNat ∧ a.toNat ≤ 0xDF) ∧ 0x80 ≤ b.toNat ∧ b.toNat ≤ 0xBF := by
  simp [isPair, isTail_iff, UInt8.le_iff_toNat_le]

theorem isTriple_iff {a b c : UInt8} : isTriple a b c = true ↔
    (0xE0 ≤ a.toNat ∧ a.toNat ≤ 0xEF) ∧ (a.toNat = 0xE0 → 0xA0 ≤ b.toNat) ∧
      (a.toNat = 0xED → b.toNat ≤ 0x9F) ∧ (0x80 ≤ b.toNat ∧ b.toNat ≤ 0xBF) ∧
      0x80 ≤ c.toNat ∧ c.toNat ≤ 0xBF := by
  have hl : a = 0xE0 ↔ a.toNat = 0xE0 := UInt8.toNat_inj.symm
  have hs : a = 0xED ↔ a.toNat = 0xED := UInt8.toNat_inj.symm
  simp only [isTriple, hl, hs, Bool.and_eq_true, isTail_iff]
  split
  · simp [UInt8.le_iff_toNat_le]
    omega
  · split
    · simp [UInt8.le_iff_toNat_le]
      omega
    · simp [UInt8.le_iff_toNat_le, isTail_iff]
      omega

/-- The first byte bounds the second one where the sequence would be overlong or beyond the last
code point. -/
theorem isQuadruple_iff {a b c d : UInt8} : isQuadruple a b c d = true ↔
    (0xF0 ≤ a.toNat ∧ a.toNat ≤ 0xF4) ∧ (a.toNat = 0xF0 → 0x90 ≤ b.toNat) ∧
      (a.toNat = 0xF4 → b.toNat ≤ 0x8F) ∧ (0x80 ≤ b.toNat ∧ b.toNat ≤ 0xBF) ∧
      (0x80 ≤ c.toNat ∧ c.toNat ≤ 0xBF) ∧ 0x80 ≤ d.toNat ∧ d.toNat ≤ 0xBF := by
  have hl : a = 0xF0 ↔ a.toNat = 0xF0 := UInt8.toNat_inj.symm
  have hs : a = 0xF4 ↔ a.toNat = 0xF4 := UInt8.toNat_inj.symm
  simp only [isQuadruple, hl, hs, Bool.and_eq_true, isTail_iff]
  split
  · simp [UInt8.le_iff_toNat_le]
    omega
  · split
    · simp [UInt8.le_iff_toNat_le]
      omega
    · simp [UInt8.le_iff_toNat_le, isTail_iff]
      omega

theorem lt_ascii_iff {a : UInt8} : a < 0x80 ↔ a.toNat < 0x80 := UInt8.lt_iff_toNat_lt

section

variable {a b c d : UInt8} {rest : Bytes}

theorem decodeUtf8_ascii (ha : a < 0x80) :
    decodeUtf8 (a :: rest) = ofByte a :: decodeUtf8 rest := by
  rw [decodeUtf8.eq_def]
  simp [ha]

theorem decodeUtf8_pair (h : isPair a b = true) :
    decodeUtf8 (a :: b :: rest) = ofPair a b :: decodeUtf8 rest := by
  have ha : ¬ a < 0x80 := by
    have := isPair_iff.1 h
    rw [lt_ascii_iff]
    omega
  rw [decodeUtf8.eq_def]
  simp [ha, h]

theorem decodeUtf8_triple (h : isTriple a b c = true) :
    decodeUtf8 (a :: b :: c :: rest) = ofTriple a b c :: decodeUtf8 rest := by
  have ht := isTriple_iff.1 h
  have ha : ¬ a < 0x80 := by
    rw [lt_ascii_iff]
    omega
  have hp : isPair a b = false := Bool.eq_false_iff.2 fun hp => by
    have := isPair_iff.1 hp
    omega
  rw [decodeUtf8.eq_def]
  simp [ha, hp, h]

theorem decodeUtf8_quadruple (h : isQuadruple a b c d = true) :
    decodeUtf8 (a :: b :: c :: d :: rest) = ofQuadruple a b c d :: decodeUtf8 rest := by
  have hq := isQuadruple_iff.1 h
  have ha : ¬ a < 0x80 := by
    rw [lt_ascii_iff]
    omega
  have hp : isPair a b = false := Bool.eq_false_iff.2 fun hp => by
    have := isPair_iff.1 hp
    omega
  have ht : isTriple a b c = false := Bool.eq_false_iff.2 fun ht => by
    have := isTriple_iff.1 ht
    omega
  rw [decodeUtf8.eq_def]
  simp [ha, hp, ht, h]

end

theorem ofNat_eq_of_val {c : CodePoint} {n : Nat} (h : n = c.val) : CodePoint.ofNat n = c := by
  subst h
  exact Fin.ext (CodePoint.val_ofNat c.isLt)

theorem decodeUtf8_utf8Bytes {c : CodePoint} (hc : c.isSurrogate = false) (rest : Bytes) :
    decodeUtf8 (utf8Bytes c ++ rest) = c :: decodeUtf8 rest := by
  have hlt := c.isLt
  have hs : ¬ (0xD800 ≤ c.val ∧ c.val ≤ 0xDFFF) := by simpa [CodePoint.isSurrogate] using hc
  have tail : ∀ n, (UInt8.ofNat (0x80 + n % 0x40)).toNat = 0x80 + n % 0x40 :=
    fun n => toNat_ofNat (by omega)
  unfold utf8Bytes
  dsimp only
  split
  · have ha : (UInt8.ofNat c.val).toNat = c.val := toNat_ofNat (by omega)
    have hascii : UInt8.ofNat c.val < 0x80 := lt_ascii_iff.2 (by omega)
    rw [List.singleton_append, decodeUtf8_ascii hascii, ofByte, ofNat_eq_of_val ha]
  · split
    · have ha : (UInt8.ofNat (0xC0 + c.val / 0x40)).toNat = 0xC0 + c.val / 0x40 :=
        toNat_ofNat (by omega)
      have hb := tail c.val
      rw [List.cons_append, List.singleton_append, decodeUtf8_pair (isPair_iff.2 (by omega)),
        ofPair,
        ofNat_eq_of_val (c := c) (by omega)]
    · split
      · have ha : (UInt8.ofNat (0xE0 + c.val / 0x1000)).toNat = 0xE0 + c.val / 0x1000 :=
          toNat_ofNat (by omega)
        have hb := tail (c.val / 0x40)
        have hd := tail c.val
        simp only [List.cons_append, List.nil_append]
        rw [decodeUtf8_triple (isTriple_iff.2 (by omega)), ofTriple,
          ofNat_eq_of_val (c := c) (by omega)]
      · have ha : (UInt8.ofNat (0xF0 + c.val / 0x40000)).toNat = 0xF0 + c.val / 0x40000 :=
          toNat_ofNat (by omega)
        have hb := tail (c.val / 0x1000)
        have hd := tail (c.val / 0x40)
        have he := tail c.val
        simp only [List.cons_append, List.nil_append]
        rw [decodeUtf8_quadruple (isQuadruple_iff.2 (by omega)), ofQuadruple,
          ofNat_eq_of_val (c := c) (by omega)]

section

variable {a b c d : UInt8}

theorem encodePoint_utf8 {c : CodePoint} {n : Nat} (hn : n < 0x110000) (hc : c = CodePoint.ofNat n)
    (hs : ¬ (0xD800 ≤ n ∧ n ≤ 0xDFFF)) : encodePoint utf8 c = some (utf8Bytes c) ∧ c.val = n := by
  have hv : c.val = n := by rw [hc, CodePoint.val_ofNat hn]
  have hc : c.isSurrogate = false := by
    simp only [CodePoint.isSurrogate, hv]
    exact Bool.eq_false_iff.2 fun h => hs (by simpa using h)
  exact ⟨by simp [encodePoint, hc], hv⟩

theorem encodePoint_ofByte (ha : a < 0x80) : encodePoint utf8 (ofByte a) = some [a] := by
  rw [lt_ascii_iff] at ha
  obtain ⟨he, hv⟩ := encodePoint_utf8 (n := a.toNat) (by omega) rfl (by omega)
  rw [show ofByte a = CodePoint.ofNat a.toNat from rfl, he, utf8Bytes]
  simp only [hv, ha, if_true, UInt8.ofNat_toNat]

theorem encodePoint_ofPair (h : isPair a b = true) :
    encodePoint utf8 (ofPair a b) = some [a, b] := by
  have hp := isPair_iff.1 h
  obtain ⟨he, hv⟩ := encodePoint_utf8 (c := ofPair a b) (by omega) rfl (by omega)
  rw [he, utf8Bytes, hv]
  generalize hn : (a.toNat - 0xC0) * 0x40 + (b.toNat - 0x80) = n
  have h₁ : ¬ n < 0x80 := by omega
  have h₂ : n < 0x800 := by omega
  have ha : 0xC0 + n / 0x40 = a.toNat := by omega
  have hb : 0x80 + n % 0x40 = b.toNat := by omega
  simp only [h₁, h₂, ha, hb, if_true, if_false, UInt8.ofNat_toNat]

theorem encodePoint_ofTriple (h : isTriple a b c = true) :
    encodePoint utf8 (ofTriple a b c) = some [a, b, c] := by
  have ht := isTriple_iff.1 h
  obtain ⟨he, hv⟩ := encodePoint_utf8 (c := ofTriple a b c) (by omega) rfl (by omega)
  rw [he, utf8Bytes, hv]
  generalize hn : ((a.toNat - 0xE0) * 0x40 + (b.toNat - 0x80)) * 0x40 + (c.toNat - 0x80) = n
  have h₁ : ¬ n < 0x80 := by omega
  have h₂ : ¬ n < 0x800 := by omega
  have h₃ : n < 0x10000 := by omega
  have ha : 0xE0 + n / 0x1000 = a.toNat := by omega
  have hb : 0x80 + n / 0x40 % 0x40 = b.toNat := by omega
  have hc : 0x80 + n % 0x40 = c.toNat := by omega
  simp only [h₁, h₂, h₃, ha, hb, hc, if_true, if_false, UInt8.ofNat_toNat]

theorem encodePoint_ofQuadruple (h : isQuadruple a b c d = true) :
    encodePoint utf8 (ofQuadruple a b c d) = some [a, b, c, d] := by
  have hq := isQuadruple_iff.1 h
  obtain ⟨he, hv⟩ := encodePoint_utf8 (c := ofQuadruple a b c d) (by omega) rfl (by omega)
  rw [he, utf8Bytes, hv]
  generalize hn : (((a.toNat - 0xF0) * 0x40 + (b.toNat - 0x80)) * 0x40 + (c.toNat - 0x80)) * 0x40 +
    (d.toNat - 0x80) = n
  have h₁ : ¬ n < 0x80 := by omega
  have h₂ : ¬ n < 0x800 := by omega
  have h₃ : ¬ n < 0x10000 := by omega
  have ha : 0xF0 + n / 0x40000 = a.toNat := by omega
  have hb : 0x80 + n / 0x1000 % 0x40 = b.toNat := by omega
  have hc : 0x80 + n / 0x40 % 0x40 = c.toNat := by omega
  have hd : 0x80 + n % 0x40 = d.toNat := by omega
  simp only [h₁, h₂, h₃, ha, hb, hc, hd, if_false, UInt8.ofNat_toNat]

end

end RecordWire.Encoding
