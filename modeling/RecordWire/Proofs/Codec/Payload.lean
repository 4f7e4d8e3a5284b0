import RecordWire.Proofs.Codec.Scalar
import RecordWire.Proofs.Wire.Decision

/-!
Payloads of strings. Under the single-byte encodings and UTF-8 a string is read whatever bytes its
payload consists of, and the string that is read stands for exactly these bytes. The other way
around, UTF-8 writes a text if its surrogates are escapes of bytes, and brings a text without
surrogates back.
-/

namespace RecordWire

namespace Encoding

/-- The number of bytes of a code point in UTF-8, where an escape is the byte that it stands for. -/
def utf8Size (c : CodePoint) : Nat :=
  if c.val < 0x80 || c.isSurrogate then 1
  else if c.val < 0x800 then 2
  else if c.val < 0x10000 then 3
  else 4

def utf8Length : Text → Nat
  | [] => 0
  | c :: t => utf8Size c + utf8Length t

theorem isTotal_iff {encoding : Encoding} :
    encoding.isTotal = true ↔ encoding ∈ [utf8, ascii, latin1] := by
  cases encoding <;> simp [isTotal]

theorem exists_encode_iff {encoding : Encoding} {t : Text} :
    (∃ bs, encode encoding t = some bs) ↔ ∀ c ∈ t, ∃ cs, encodePoint encoding c = some cs := by
  induction t with
  | nil => simp [encode]
  | cons c t ih =>
    rw [List.forall_mem_cons, ← ih]
    constructor
    · rintro ⟨bs, h⟩
      obtain ⟨cs, ds, hcs, hds, -⟩ := encode_cons.1 h
      exact ⟨⟨cs, hcs⟩, ds, hds⟩
    · rintro ⟨⟨cs, hcs⟩, ds, hds⟩
      exact ⟨cs ++ ds, encode_cons_of hcs hds⟩

theorem exists_encodePoint_utf8_iff {c : CodePoint} : (∃ cs, encodePoint utf8 c = some cs) ↔
    (c.isSurrogate = true → 0xDC80 ≤ c.val ∧ c.val ≤ 0xDCFF) := by
  by_cases hs : c.isSurrogate = true
  · by_cases he : 0xDC80 ≤ c.val ∧ c.val ≤ 0xDCFF
    · simp [encodePoint, escapedByte?, hs, he]
    · simp [encodePoint, escapedByte?, hs, he]
  · simp [encodePoint, hs]

theorem length_utf8Bytes {c : CodePoint} (hc : c.isSurrogate = false) :
    (utf8Bytes c).length = utf8Size c := by
  unfold utf8Bytes utf8Size
  simp only [hc, Bool.or_false, decide_eq_true_eq]
  split
  · rfl
  · split
    · rfl
    · split <;> rfl

theorem length_of_encodePoint_utf8 {c : CodePoint} {cs : Bytes}
    (h : encodePoint utf8 c = some cs) : cs.length = utf8Size c := by
  by_cases hs : c.isSurrogate = true
  · simp only [encodePoint, hs, if_true, Option.map_eq_some_iff] at h
    obtain ⟨b, -, rfl⟩ := h
    simp [utf8Size, hs]
  · rw [Bool.not_eq_true] at hs
    simp only [encodePoint, hs, Bool.false_eq_true, if_false, Option.some.injEq] at h
    subst h
    exact length_utf8Bytes hs

theorem length_of_encode_utf8 {t : Text} {bs : Bytes} (h : encode utf8 t = some bs) :
    bs.length = utf8Length t := by
  induction t generalizing bs with
  | nil =>
    obtain rfl := Option.some.inj h
    rfl
  | cons c t ih =>
    obtain ⟨cs, ds, hcs, hds, rfl⟩ := encode_cons.1 h
    rw [utf8Length, List.length_append, length_of_encodePoint_utf8 hcs, ih hds]

end Encoding

namespace Primitive

open Source (amid)
open Encoding (utf8Length)

variable {config : Config}

theorem read_string_of_decode {payload : Bytes} {t : Text} (hl : payload.length < 2 ^ 32)
    (hd : config.encoding.decode payload = some t) (before more : Bytes) :
    string.read config (amid before (config.byteOrder.countBytes payload.length ++ payload ++ more))
      = .ok (.text t)
          (amid (before ++ (config.byteOrder.countBytes payload.length ++ payload)) more) := by
  have hspells : string.Spells config.byteOrder config.encoding
      (config.byteOrder.countBytes payload.length ++ payload) (.text t) :=
    ⟨payload, t, hl, rfl, Encoding.decode_eq_ok.2 hd, rfl⟩
  exact (string.reads config).complete hspells before more

theorem exists_writes_payload (ht : config.encoding.isTotal = true) {payload : Bytes}
    (hl : payload.length < 2 ^ 32) : ∃ t, config.encoding.decode payload = some t ∧
      (string.write config (.text t)).Writes
        (config.byteOrder.countBytes payload.length ++ payload) := by
  obtain ⟨t, hd⟩ := Option.isSome_iff_exists.1 (Encoding.isSome_decode ht payload)
  have he := Encoding.encode_decode ht hd
  exact ⟨t, hd, (writes_string config t).2 ⟨payload, he, hl, rfl⟩⟩

theorem exists_writes_utf8_iff (he : config.encoding = .utf8) {t : Text} :
    (∃ bs, (string.write config (.text t)).Writes bs) ↔
      (∀ c ∈ t, c.isSurrogate = true → 0xDC80 ≤ c.val ∧ c.val ≤ 0xDCFF) ∧
        utf8Length t < 2 ^ 32 := by
  have hpoints : (∃ bs, Encoding.encode .utf8 t = some bs) ↔
      ∀ c ∈ t, c.isSurrogate = true → 0xDC80 ≤ c.val ∧ c.val ≤ 0xDCFF := by
    simp only [Encoding.exists_encode_iff, Encoding.exists_encodePoint_utf8_iff]
  simp only [writes_string, he, ← hpoints]
  constructor
  · rintro ⟨bs, payload, hp, hl, -⟩
    rw [Encoding.length_of_encode_utf8 hp] at hl
    exact ⟨⟨payload, hp⟩, hl⟩
  · rintro ⟨⟨payload, hp⟩, hl⟩
    rw [← Encoding.length_of_encode_utf8 hp] at hl
    exact ⟨_, payload, hp, hl, rfl⟩

theorem read_string_of_writes {t : Text} (ht : t.hasSurrogate = false) {bs : Bytes}
    (hw : (string.write config (.text t)).Writes bs) (before more : Bytes) :
    string.read config (amid before (bs ++ more)) = .ok (.text t) (amid (before ++ bs) more) := by
  obtain ⟨payload, hp, hl, rfl⟩ := (writes_string config t).1 hw
  exact read_string_of_decode hl (Encoding.decode_encode ht hp) before more

/-- Under UTF-8 and the single-byte encodings the payload of a string is opaque: whatever bytes it
consists of, it is read as a text, and this text is written as the same bytes. Under UTF-8 a text
is written exactly if its surrogates are escapes and its bytes can be counted, and a text without
surrogates is read again from what is written of it. -/
theorem string_payload (config : Config) :
    (config.encoding ∈ [Encoding.utf8, .ascii, .latin1] → ∀ payload : Bytes,
      payload.length < 2 ^ 32 →
      let bs := config.byteOrder.countBytes payload.length ++ payload
      ∃ t : Text, (∀ before more, string.read config (amid before (bs ++ more)) =
          .ok (.text t) (amid (before ++ bs) more)) ∧
        (string.write config (.text t)).Writes bs) ∧
    (config.encoding = .utf8 → ∀ t : Text,
      ((∃ bs, (string.write config (.text t)).Writes bs) ↔
        (∀ c ∈ t, c.isSurrogate = true → 0xDC80 ≤ c.val ∧ c.val ≤ 0xDCFF) ∧
          utf8Length t < 2 ^ 32) ∧
      (t.hasSurrogate = false → ∀ bs, (string.write config (.text t)).Writes bs →
        ∀ before more, string.read config (amid before (bs ++ more)) =
          .ok (.text t) (amid (before ++ bs) more))) := by
  constructor
  · intro he payload hl
    obtain ⟨t, hd, hw⟩ := exists_writes_payload (Encoding.isTotal_iff.2 he) hl
    exact ⟨t, fun before more => read_string_of_decode hl hd before more, hw⟩
  · intro he t
    exact ⟨exists_writes_utf8_iff he, fun ht bs hw => read_string_of_writes ht hw⟩

/-- A payload of a truncated, an overlong, a surrogate and an out-of-range sequence, in front of a
letter; and a text that ends in an escape. -/
theorem string_payload_malformed :
    let config : Config := { byteOrder := .big, strict := true }
    let payload : Bytes :=
      [0xE2, 0x82, 0xC0, 0x80, 0xED, 0xA0, 0x80, 0xF4, 0x90, 0x80, 0x80, 0x41]
    let bs := config.byteOrder.countBytes payload.length ++ payload
    let s : Text := [0x20AC, 0xDC80]
    config.encoding ∈ [Encoding.utf8, .ascii, .latin1] ∧ payload.length < 2 ^ 32 ∧
    (∃ t : Text, (∀ before more, string.read config (amid before (bs ++ more)) =
        .ok (.text t) (amid (before ++ bs) more)) ∧
      (string.write config (.text t)).Writes bs) ∧
    config.encoding = .utf8 ∧
    ((∃ bs, (string.write config (.text s)).Writes bs) ↔
      (∀ c ∈ s, c.isSurrogate = true → 0xDC80 ≤ c.val ∧ c.val ≤ 0xDCFF) ∧
        utf8Length s < 2 ^ 32) ∧
    (Text.hasSurrogate [0x20AC] = false ∧
      (string.write config (.text [0x20AC])).Writes [0, 0, 0, 3, 0xE2, 0x82, 0xAC] ∧
      ∀ before more,
        string.read config (amid before ([0, 0, 0, 3, 0xE2, 0x82, 0xAC] ++ more)) =
          .ok (.text [0x20AC]) (amid (before ++ [0, 0, 0, 3, 0xE2, 0x82, 0xAC]) more)) := by
  intro config payload bs s
  have hw : (string.write config (.text [0x20AC])).Writes [0, 0, 0, 3, 0xE2, 0x82, 0xAC] := by rfl
  refine ⟨by simp [config], by decide, ?_, rfl, ?_, rfl, hw, ?_⟩
  · exact (string_payload config).1 (by simp [config]) payload (by decide)
  · exact ((string_payload config).2 rfl s).1
  · exact ((string_payload config).2 rfl [0x20AC]).2 rfl _ hw

end Primitive

end RecordWire
