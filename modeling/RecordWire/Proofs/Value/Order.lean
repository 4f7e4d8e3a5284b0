import Mathlib.Data.List.Lex
import Mathlib.Data.Prod.Lex
import Mathlib.Order.Fin.Basic
import Mathlib.Order.Monotone.Basic
import RecordWire.Proofs.Number.Nearest
import RecordWire.Proofs.Value.Agreement

/-!
The order of values, family by family: numbers by their exact values, whether they are booleans,
integers or floating-point numbers, texts by their code points, both kinds of byte strings by their
bytes. In each family values have ranks in a linear order, by which they are compared; so the order
is one, though it is defined case by case.
-/

namespace RecordWire

theorem BinaryFormat.units_strictMono (f : BinaryFormat) : StrictMono f.units :=
  strictMono_nat_of_lt_succ f.units_lt_succ

def intPlace (n : Int) : ℤ ×ₗ ℤ := toLex (0, n * Binary64.one)

namespace Binary64

/-- The place of a number that is not NaN among all numbers: the infinite ones before and behind
the finite ones, and these by their exact values. -/
def place (x : Binary64) : ℤ ×ₗ ℤ :=
  if x.isInfinite then toLex (if x.negative then -1 else 1, 0) else toLex (0, x.scaled)

variable {x y : Binary64}

theorem word_cases (h : x.isNaN = false) :
    x.isInfinite = true ∧ x.word = BinaryFormat.binary64.infinity ∨
      x.isInfinite = false ∧ x.word < BinaryFormat.binary64.infinity := by
  simp only [isNaN, decide_eq_false_iff_not, Nat.not_lt] at h
  simp only [isInfinite, beq_iff_eq, beq_eq_false_iff_ne]
  omega

theorem isFinite_eq (h : x.isNaN = false) : x.isFinite = !x.isInfinite := by
  rcases word_cases h with ⟨hi, hw⟩ | ⟨hi, hw⟩ <;> simp [isFinite, hi, hw]

theorem rank_lt_iff_place (hx : x.isNaN = false) (hy : y.isNaN = false) :
    x.rank < y.rank ↔ x.place < y.place := by
  have hmono := BinaryFormat.binary64.units_strictMono
  have hzero : BinaryFormat.binary64.units 0 = 0 := BinaryFormat.units_of_lt (Nat.two_pow_pos _)
  have hxy := hmono.lt_iff_lt (a := x.word) (b := y.word)
  have hyx := hmono.lt_iff_lt (a := y.word) (b := x.word)
  have hx0 := hmono.lt_iff_lt (a := 0) (b := x.word)
  have hy0 := hmono.lt_iff_lt (a := 0) (b := y.word)
  rw [hzero] at hx0 hy0
  have hinf : 0 < BinaryFormat.binary64.infinity := by decide
  unfold place rank
  rcases word_cases hx with ⟨hxi, hxw⟩ | ⟨hxi, hxw⟩ <;>
    rcases word_cases hy with ⟨hyi, hyw⟩ | ⟨hyi, hyw⟩ <;>
    simp only [hxi, hyi, if_true, Bool.false_eq_true, if_false, Prod.Lex.toLex_lt_toLex, scaled,
      units] <;>
    cases x.negative <;> cases y.negative <;> simp <;> omega

theorem less_iff (hx : x.isNaN = false) (hy : y.isNaN = false) :
    x.less y = true ↔ x.place < y.place := by
  simp [less, hx, hy, rank_lt_iff_place]

theorem equal_iff (hx : x.isNaN = false) (hy : y.isNaN = false) :
    x.equal y = true ↔ x.place = y.place := by
  have hrank : x.rank = y.rank ↔ x.place = y.place := by
    simp only [le_antisymm_iff, ← not_lt, rank_lt_iff_place hx hy, rank_lt_iff_place hy hx]
  simp [equal, hx, hy, hrank]

theorem lessInt_iff (hx : x.isNaN = false) (n : Int) :
    x.lessInt n = true ↔ x.place < intPlace n := by
  unfold lessInt place intPlace
  generalize n * (one : Int) = m
  rcases word_cases hx with ⟨hi, -⟩ | ⟨hi, -⟩ <;>
    simp only [hx, isFinite_eq hx, hi, Prod.Lex.toLex_lt_toLex, Bool.false_eq_true, Bool.not_true,
      Bool.not_false, if_true, if_false]
  · cases x.negative <;> simp
  · simp

theorem intLess_iff (hx : x.isNaN = false) (n : Int) :
    intLess n x = true ↔ intPlace n < x.place := by
  unfold intLess place intPlace
  generalize n * (one : Int) = m
  rcases word_cases hx with ⟨hi, -⟩ | ⟨hi, -⟩ <;>
    simp only [hx, isFinite_eq hx, hi, Prod.Lex.toLex_lt_toLex, Bool.false_eq_true, Bool.not_true,
      Bool.not_false, if_true, if_false]
  · cases x.negative <;> simp
  · simp

theorem equalInt_iff (hx : x.isNaN = false) (n : Int) :
    x.equalInt n = true ↔ x.place = intPlace n := by
  unfold equalInt place intPlace
  generalize n * (one : Int) = m
  rcases word_cases hx with ⟨hi, -⟩ | ⟨hi, -⟩ <;>
    simp only [isFinite_eq hx, hi, toLex_inj, Prod.mk.injEq, Bool.not_true, Bool.not_false,
      Bool.true_and, Bool.false_and, if_true, Bool.false_eq_true, if_false]
  · cases x.negative <;> simp
  · simp

end Binary64

theorem intPlace_lt_iff {m n : Int} : intPlace m < intPlace n ↔ m < n := by
  have hone : (0 : Int) < Binary64.one := by decide +kernel
  unfold intPlace
  generalize (Binary64.one : Int) = one at hone
  rw [Prod.Lex.toLex_lt_toLex]
  simp only [lt_self_iff_false, true_and, false_or]
  exact Int.mul_lt_mul_right hone

theorem intPlace_inj {m n : Int} : intPlace m = intPlace n ↔ m = n := by
  simp only [le_antisymm_iff, ← not_lt, intPlace_lt_iff]

theorem Text.before_iff (s t : Text) : s.before t = true ↔ s < t := by
  induction s generalizing t with
  | nil => cases t <;> simp [before]
  | cons a s ih =>
    cases t with
    | nil => simp [before]
    | cons b t => simp [before, List.cons_lt_cons_iff, ih]

theorem Atom.bytesBefore_iff (s t : Bytes) :
    bytesBefore s t = true ↔ s.map UInt8.toNat < t.map UInt8.toNat := by
  induction s generalizing t with
  | nil => cases t <;> simp [bytesBefore]
  | cons a s ih =>
    cases t with
    | nil => simp [bytesBefore]
    | cons b t =>
      simp [bytesBefore, List.cons_lt_cons_iff, ih, UInt8.lt_iff_toNat_lt, ← UInt8.toNat_inj]

namespace Atom

variable {a b : Atom} {m n : Int} {x : Binary64} {object : Nat}

theorem before?_of_toInt (ha : a.toInt? = some m) (hb : b.toInt? = some n) :
    a.before? b = some (decide (m < n)) := by
  cases a <;> cases ha <;> cases b <;> cases hb <;> rfl

theorem before?_float_of_toInt (hb : b.toInt? = some n) :
    (float x object).before? b = some (x.lessInt n) := by
  cases b <;> cases hb <;> rfl

theorem before?_of_toInt_float (ha : a.toInt? = some m) :
    a.before? (float x object) = some (Binary64.intLess m x) := by
  cases a <;> cases ha <;> rfl

theorem equal_of_toInt (ha : a.toInt? = some m) (hb : b.toInt? = some n) :
    a.equal b = (m == n) := by
  cases a <;> cases ha <;> cases b <;> cases hb <;> rfl

theorem equal_float_of_toInt (hb : b.toInt? = some n) :
    (float x object).equal b = x.equalInt n := by
  cases b <;> cases hb <;> rfl

theorem equal_of_toInt_float (ha : a.toInt? = some m) :
    a.equal (float x object) = x.equalInt m := by
  cases a <;> cases ha <;> rfl

theorem before?_of_toBytes {s t : Bytes} (ha : a.toBytes? = some s) (hb : b.toBytes? = some t) :
    a.before? b = some (bytesBefore s t) := by
  cases a <;> cases ha <;> cases b <;> cases hb <;> rfl

theorem equal_of_toBytes {s t : Bytes} (ha : a.toBytes? = some s) (hb : b.toBytes? = some t) :
    a.equal b = (s == t) := by
  cases a <;> cases ha <;> cases b <;> cases hb <;> rfl

end Atom

namespace Value

/-- A number that is not NaN. -/
inductive IsNumber : Value → Prop
  | int {a : Atom} {n : Int} (h : a.toInt? = some n) : IsNumber (.atom a)
  | float {x : Binary64} {object : Nat} (h : x.isNaN = false) : IsNumber (.atom (.float x object))

def IsText (v : Value) : Prop := ∃ t, v = .text t

def IsBytes (v : Value) : Prop := ∃ a bs, v = .atom a ∧ a.toBytes? = some bs

def numberRank : Value → ℤ ×ₗ ℤ
  | .atom (.float x _) => x.place
  | v => intPlace (v.toInt?.getD 0)

def textRank : Value → Text
  | .atom (.text t) => t
  | _ => []

def bytesRank : Value → List Nat
  | .atom a => (a.toBytes?.getD []).map UInt8.toNat
  | _ => []

/-- The values of a family are compared by their ranks. -/
structure IsRank {β : Type} [LinearOrder β] (family : Value → Prop) (rank : Value → β) :
    Prop where
  before? : ∀ {k l}, family k → family l →
    ∃ b, k.before? l = some b ∧ (b = true ↔ rank k < rank l)
  equal : ∀ {k l}, family k → family l → (k.equal l = true ↔ rank k = rank l)

theorem IsRank.mono {β : Type} [LinearOrder β] {family family' : Value → Prop} {rank : Value → β}
    (hr : IsRank family rank) (h : ∀ k, family' k → family k) : IsRank family' rank where
  before? hk hl := hr.before? (h _ hk) (h _ hl)
  equal hk hl := hr.equal (h _ hk) (h _ hl)

theorem numberRank_of_toInt {a : Atom} {n : Int} (h : a.toInt? = some n) :
    (atom a).numberRank = intPlace n := by
  cases a <;> cases h <;> rfl

theorem isRank_number : IsRank IsNumber numberRank where
  before? := by
    rintro _ _ (hk | hx) (hl | hy)
    · refine ⟨_, Atom.before?_of_toInt hk hl, ?_⟩
      rw [numberRank_of_toInt hk, numberRank_of_toInt hl, intPlace_lt_iff, decide_eq_true_iff]
    · refine ⟨_, Atom.before?_of_toInt_float hk, ?_⟩
      rw [numberRank_of_toInt hk, Binary64.intLess_iff hy, numberRank]
    · refine ⟨_, Atom.before?_float_of_toInt hl, ?_⟩
      rw [numberRank_of_toInt hl, Binary64.lessInt_iff hx, numberRank]
    · exact ⟨_, rfl, Binary64.less_iff hx hy⟩
  equal := by
    rintro _ _ (hk | hx) (hl | hy)
    · rw [equal, Atom.equal_of_toInt hk hl, numberRank_of_toInt hk, numberRank_of_toInt hl,
        intPlace_inj, beq_iff_eq]
    · rw [equal, Atom.equal_of_toInt_float hk, numberRank_of_toInt hk, Binary64.equalInt_iff hy,
        eq_comm, numberRank]
    · rw [equal, Atom.equal_float_of_toInt hl, numberRank_of_toInt hl, Binary64.equalInt_iff hx,
        numberRank]
    · rw [equal]
      exact Binary64.equal_iff hx hy

theorem isRank_text : IsRank IsText textRank where
  before? := by
    rintro _ _ ⟨s, rfl⟩ ⟨t, rfl⟩
    exact ⟨_, rfl, Text.before_iff s t⟩
  equal := by
    rintro _ _ ⟨s, rfl⟩ ⟨t, rfl⟩
    simp [equal, Atom.equal, textRank]

theorem isRank_bytes : IsRank IsBytes bytesRank where
  before? := by
    rintro _ _ ⟨a, s, rfl, ha⟩ ⟨b, t, rfl, hb⟩
    refine ⟨_, Atom.before?_of_toBytes ha hb, ?_⟩
    simp [bytesRank, ha, hb, Atom.bytesBefore_iff]
  equal := by
    rintro _ _ ⟨a, s, rfl, ha⟩ ⟨b, t, rfl, hb⟩
    have hinj : Function.Injective (List.map UInt8.toNat) :=
      List.map_injective_iff.2 fun _ _ => UInt8.toNat_inj.1
    rw [equal, Atom.equal_of_toBytes ha hb, beq_iff_eq, bytesRank, bytesRank, ha, hb,
      Option.getD_some, Option.getD_some, hinj.eq_iff]

/-- What is compared with its like only. -/
inductive Family
  | number | text | bytes

/-- The values of a family. -/
def Family.Has : Family → Value → Prop
  | number => IsNumber
  | text => IsText
  | bytes => IsBytes

theorem Family.exists_rank (family : Family) :
    ∃ (β : Type) (_ : LinearOrder β) (rank : Value → β), IsRank family.Has rank := by
  cases family with
  | number => exact ⟨_, _, _, isRank_number⟩
  | text => exact ⟨_, _, _, isRank_text⟩
  | bytes => exact ⟨_, _, _, isRank_bytes⟩

section

variable {v w : Value}

theorem before?_number_text (hv : IsNumber v) (hw : IsText w) :
    v.before? w = Option.none ∧ w.before? v = Option.none := by
  obtain ⟨t, rfl⟩ := hw
  rcases hv with @⟨a, n, ha⟩ | _
  · cases a <;> cases ha <;> exact ⟨rfl, rfl⟩
  · exact ⟨rfl, rfl⟩

theorem before?_number_bytes (hv : IsNumber v) (hw : IsBytes w) :
    v.before? w = Option.none ∧ w.before? v = Option.none := by
  obtain ⟨b, bs, rfl, hb⟩ := hw
  rcases hv with @⟨a, n, ha⟩ | _
  · cases a <;> cases ha <;> cases b <;> cases hb <;> exact ⟨rfl, rfl⟩
  · cases b <;> cases hb <;> exact ⟨rfl, rfl⟩

theorem before?_text_bytes (hv : IsText v) (hw : IsBytes w) :
    v.before? w = Option.none ∧ w.before? v = Option.none := by
  obtain ⟨t, rfl⟩ := hv
  obtain ⟨b, bs, rfl, hb⟩ := hw
  cases b <;> cases hb <;> exact ⟨rfl, rfl⟩

theorem Family.eq_of_before? {F G : Family} (hv : F.Has v) (hw : G.Has w)
    (h : (v.before? w).isSome = true) : F = G := by
  have hno : ∀ {o : Option Bool}, o = Option.none → o.isSome = true → False := by
    rintro _ rfl ⟨⟩
  cases F <;> cases G
  case number.number | text.text | bytes.bytes => rfl
  case number.text => exact (hno (before?_number_text hv hw).1 h).elim
  case text.number => exact (hno (before?_number_text hw hv).2 h).elim
  case number.bytes => exact (hno (before?_number_bytes hv hw).1 h).elim
  case bytes.number => exact (hno (before?_number_bytes hw hv).2 h).elim
  case text.bytes => exact (hno (before?_text_bytes hv hw).1 h).elim
  case bytes.text => exact (hno (before?_text_bytes hw hv).2 h).elim

end

end Value

end RecordWire
