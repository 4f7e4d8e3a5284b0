import RecordWire.Wire.Output

/-!
Integers in two's complement. Every byte string of the width of a kind is the bytes of exactly one
integer that the kind holds.
-/

namespace RecordWire

theorem IntWidth.two_pow_bits (width : IntWidth) :
    (2 : Int) ^ width.bits = 2 * 2 ^ (width.bits - 1) := by
  cases width <;> rfl

theorem IntWidth.two_pow_pos (width : IntWidth) : (0 : Int) < 2 ^ (width.bits - 1) := by
  cases width <;> decide

namespace IntKind

/-- The integer of a kind with given octets, least significant first. -/
def ofOctets (kind : IntKind) (bs : Bytes) : Int :=
  let n : Int := Octets.toNat bs
  if kind.signed && 2 ^ (kind.width.bits - 1) ≤ n then n - 2 ^ kind.width.bits else n

@[simp] theorem ofOctets_uint8 (bs : Bytes) : uint8.ofOctets bs = Octets.toNat bs := by
  simp [ofOctets, uint8]

@[simp] theorem ofOctets_uint16 (bs : Bytes) : uint16.ofOctets bs = Octets.toNat bs := by
  simp [ofOctets, uint16]

variable {kind : IntKind}

theorem holds_signed {width : IntWidth} {n : Int} : holds ⟨width, true⟩ n = true ↔
    -(2 ^ (width.bits - 1)) ≤ n ∧ n < 2 ^ (width.bits - 1) := by
  simp only [holds, low, high, if_true, Bool.and_eq_true, decide_eq_true_eq]
  omega

theorem holds_unsigned {width : IntWidth} {n : Int} : holds ⟨width, false⟩ n = true ↔
    0 ≤ n ∧ n < 2 ^ width.bits := by
  simp only [holds, low, high, Bool.false_eq_true, if_false, Bool.and_eq_true, decide_eq_true_eq]
  omega

theorem ofOctets_signed {width : IntWidth} {bs : Bytes} : ofOctets ⟨width, true⟩ bs =
    if 2 ^ (width.bits - 1) ≤ (Octets.toNat bs : Int) then (Octets.toNat bs : Int) - 2 ^ width.bits
    else (Octets.toNat bs : Int) := by
  simp [ofOctets]

theorem ofOctets_unsigned {width : IntWidth} {bs : Bytes} :
    ofOctets ⟨width, false⟩ bs = Octets.toNat bs := by
  simp [ofOctets]

theorem toNat_lt {width : IntWidth} {bs : Bytes} (h : bs.length = width.bytes) :
    (Octets.toNat bs : Int) < 2 ^ width.bits := by
  have hlt := Octets.toNat_lt bs
  have hp : (256 : Nat) ^ width.bytes = 2 ^ width.bits := by
    rw [IntWidth.bits, Nat.pow_mul]
  rw [h, hp] at hlt
  exact_mod_cast hlt

theorem holds_ofOctets {bs : Bytes} (h : bs.length = kind.width.bytes) :
    kind.holds (kind.ofOctets bs) = true := by
  obtain ⟨width, signed⟩ := kind
  have hlt : (Octets.toNat bs : Int) < 2 ^ width.bits := toNat_lt h
  have hb := width.two_pow_bits
  cases signed with
  | false =>
    rw [holds_unsigned, ofOctets_unsigned]
    omega
  | true =>
    rw [holds_signed, ofOctets_signed]
    split <;> omega

theorem toNat_intBytes (order : ByteOrder) (kind : IntKind) (n : Int) :
    (Octets.toNat (order.arrange (Output.intBytes order kind n)) : Int) =
      n % 2 ^ kind.width.bits := by
  have hp : (256 : Nat) ^ kind.width.bytes = 2 ^ kind.width.bits := by
    rw [IntWidth.bits, Nat.pow_mul]
  have hpos : (0 : Int) < 2 ^ kind.width.bits := by
    have := kind.width.two_pow_pos
    rw [kind.width.two_pow_bits]
    omega
  have hnonneg := Int.emod_nonneg n (Int.ne_of_gt hpos)
  have hlt := Int.emod_lt_of_pos n hpos
  have hn : (n % 2 ^ kind.width.bits).toNat < 2 ^ kind.width.bits := by
    rw [Int.toNat_lt hnonneg]
    exact_mod_cast hlt
  rw [Output.intBytes, ByteOrder.arrange_arrange, Octets.toNat_ofNat, hp, Nat.mod_eq_of_lt hn]
  omega

theorem ofOctets_intBytes (order : ByteOrder) {n : Int} (h : kind.holds n = true) :
    kind.ofOctets (order.arrange (Output.intBytes order kind n)) = n := by
  have hn := toNat_intBytes order kind n
  obtain ⟨width, signed⟩ := kind
  have hb := width.two_pow_bits
  change _ = n % 2 ^ width.bits at hn
  cases signed with
  | false =>
    rw [holds_unsigned] at h
    rw [ofOctets_unsigned, hn, Int.emod_eq_of_lt h.1 h.2]
  | true =>
    rw [holds_signed] at h
    rw [ofOctets_signed, hn]
    by_cases hneg : n < 0
    · have hm : n % 2 ^ width.bits = n + 2 ^ width.bits := by
        rw [← Int.add_emod_right, Int.emod_eq_of_lt (by omega) (by omega)]
      rw [hm, if_pos (by omega)]
      omega
    · rw [Int.emod_eq_of_lt (by omega) (by omega), if_neg (by omega)]

theorem intBytes_ofOctets (order : ByteOrder) {bs : Bytes} (h : bs.length = kind.width.bytes) :
    Output.intBytes order kind (kind.ofOctets (order.arrange bs)) = bs := by
  have hl : (order.arrange bs).length = kind.width.bytes := by simpa using h
  have hlt : (Octets.toNat (order.arrange bs) : Int) < 2 ^ kind.width.bits := toNat_lt hl
  have hm : (kind.ofOctets (order.arrange bs) % 2 ^ kind.width.bits).toNat =
      Octets.toNat (order.arrange bs) := by
    have he : kind.ofOctets (order.arrange bs) % 2 ^ kind.width.bits =
        Octets.toNat (order.arrange bs) := by
      obtain ⟨width, signed⟩ := kind
      cases signed with
      | false => rw [ofOctets_unsigned, Int.emod_eq_of_lt (by omega) hlt]
      | true =>
        rw [ofOctets_signed]
        split
        · rw [Int.sub_emod_right, Int.emod_eq_of_lt (by omega) hlt]
        · rw [Int.emod_eq_of_lt (by omega) hlt]
    rw [he, Int.toNat_natCast]
  rw [Output.intBytes, hm, ← hl, Octets.ofNat_toNat, ByteOrder.arrange_arrange]

@[simp] theorem length_intBytes (order : ByteOrder) (kind : IntKind) (n : Int) :
    (Output.intBytes order kind n).length = kind.width.bytes := by
  simp [Output.intBytes]

end IntKind

end RecordWire
