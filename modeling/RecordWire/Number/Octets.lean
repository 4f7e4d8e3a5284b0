import RecordWire.Number.Power
import RecordWire.Text.Quoted

/-!
Natural numbers as byte strings of a fixed width, least significant byte first. The two directions
are inverse to each other on the numbers below `256 ^ width` and the byte strings of that width.
-/

namespace RecordWire.Octets

/-- The lowest `width` base-256 digits of a number, least significant first. -/
def ofNat : (width n : Nat) → Bytes
  | 0, _ => []
  | width + 1, n => UInt8.ofNat (n % 256) :: ofNat width (n / 256)

/-- The number whose base-256 digits are given, least significant first. -/
def toNat : Bytes → Nat
  | [] => 0
  | b :: bs => b.toNat + 256 * toNat bs

@[simp] theorem length_ofNat (width n : Nat) : (ofNat width n).length = width := by
  induction width generalizing n with
  | zero => rfl
  | succ width ih => simp [ofNat, ih]

theorem toNat_lt (bs : Bytes) : toNat bs < 256 ^ bs.length := by
  induction bs with
  | nil => simp [toNat]
  | cons b bs ih =>
    have := b.toNat_lt
    simp only [toNat, List.length_cons, Nat.pow_succ]
    omega

theorem toNat_ofNat (width n : Nat) : toNat (ofNat width n) = n % 256 ^ width := by
  induction width generalizing n with
  | zero => simp [ofNat, toNat, Nat.mod_one]
  | succ width ih =>
    have h : (UInt8.ofNat (n % 256)).toNat = n % 256 := by simp
    rw [ofNat, toNat, ih, h, Nat.pow_succ, Nat.mul_comm (256 ^ width), Nat.mod_mul]

theorem ofNat_toNat (bs : Bytes) : ofNat bs.length (toNat bs) = bs := by
  induction bs with
  | nil => rfl
  | cons b bs ih =>
    have := b.toNat_lt
    have h1 : (b.toNat + 256 * toNat bs) % 256 = b.toNat := by omega
    have h2 : (b.toNat + 256 * toNat bs) / 256 = toNat bs := by omega
    rw [toNat, List.length_cons, ofNat, h1, h2, ih]
    simp

end RecordWire.Octets
