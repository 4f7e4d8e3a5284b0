import RecordWire.Number.Binary

/-!
Double precision numbers, each a 64-bit pattern. A finite number is the integer `scaled` divided by
`2 ^ 1074`, so that comparison, conversion and rounding are integer arithmetic.
-/

namespace RecordWire

/-- A double precision number as its bit pattern. -/
structure Binary64 where
  bits : UInt64
  deriving DecidableEq

namespace Binary64

open BinaryFormat (binary32 binary64)

def ofWord (negative : Bool) (word : Nat) : Binary64 :=
  ⟨UInt64.ofNat ((if negative then 2 ^ 63 else 0) + word)⟩

def negative (x : Binary64) : Bool := 2 ^ 63 ≤ x.bits.toNat

def word (x : Binary64) : Nat := x.bits.toNat % 2 ^ 63

def isNaN (x : Binary64) : Bool := binary64.infinity < x.word

def isFinite (x : Binary64) : Bool := x.word < binary64.infinity

def isInfinite (x : Binary64) : Bool := x.word == binary64.infinity

def zero : Binary64 := ⟨0⟩
def infinity (negative : Bool) : Binary64 := ofWord negative binary64.infinity

def nan (negative : Bool) : Binary64 := ofWord negative (binary64.infinity + 2 ^ 51)

/-- The magnitude of a finite number, in units of `2 ^ -1074`. -/
def units (x : Binary64) : Nat := binary64.units x.word

/-- A finite number times `2 ^ 1074`. -/
def scaled (x : Binary64) : Int := if x.negative then -(x.units : Int) else x.units

def one : Nat := 2 ^ 1074

/-- The place of a number that is not NaN among all such numbers; the two zeros share theirs. -/
def rank (x : Binary64) : Int := if x.negative then -(x.word : Int) else x.word

/-- Numerical equality: NaN equals nothing, and the two zeros are equal. -/
def equal (x y : Binary64) : Bool := !x.isNaN && !y.isNaN && x.rank == y.rank

def less (x y : Binary64) : Bool := !x.isNaN && !y.isNaN && x.rank < y.rank

def equalInt (x : Binary64) (n : Int) : Bool := x.isFinite && x.scaled == n * one

def lessInt (x : Binary64) (n : Int) : Bool :=
  if x.isNaN then false
  else if x.isFinite then x.scaled < n * one
  else x.negative

def intLess (n : Int) (x : Binary64) : Bool :=
  if x.isNaN then false
  else if x.isFinite then n * one < x.scaled
  else !x.negative

/-- The nearest number to a quotient of natural numbers, infinite if that is too large. -/
def ofQuotient (negative : Bool) (num den : Nat) : Binary64 :=
  ofWord negative (binary64.nearest (num * one) den)

def negate (x : Binary64) : Binary64 := ofWord (!x.negative) x.word

def add (x y : Binary64) : Binary64 :=
  if x.isNaN || y.isNaN then nan false
  else if x.isInfinite then if y.isInfinite && x.negative != y.negative then nan true else x
  else if y.isInfinite then y
  else
    let sum := x.scaled + y.scaled
    ofQuotient (if sum = 0 then x.negative && y.negative else decide (sum < 0)) sum.natAbs one

def mul (x y : Binary64) : Binary64 :=
  let negative := x.negative != y.negative
  if x.isNaN || y.isNaN then nan false
  else if x.isInfinite || y.isInfinite then
    if x.word = 0 || y.word = 0 then nan true else infinity negative
  else ofQuotient negative (x.units * y.units) (one * one)

/-- The nearest number to an integer, unless the integer is too large. -/
def ofInt? (n : Int) : Option Binary64 :=
  let x := ofQuotient (n < 0) n.natAbs 1
  if x.isFinite then some x else none

def toInt? (x : Binary64) : Option Int :=
  if x.isFinite && x.units % one == 0 then
    some (if x.negative then -((x.units / one : Nat) : Int) else (x.units / one : Nat))
  else none

/-- The units of single precision in one unit of double precision, as a power of two. -/
def narrowing : Nat := binary64.unitBits - binary32.unitBits

/-- A single precision pattern as a double precision number, exactly. -/
def ofSingle (bits : UInt32) : Binary64 :=
  let word := bits.toNat % 2 ^ 31
  let negative := decide (2 ^ 31 ≤ bits.toNat)
  if binary32.infinity < word then
    ofWord negative (binary64.infinity + 2 ^ 51 + word % 2 ^ 22 * 2 ^ 29)
  else if word = binary32.infinity then infinity negative
  else ofWord negative (binary64.nearest (binary32.units word * 2 ^ narrowing) 1)

/-- The nearest single precision pattern, unless a finite number is too large for it. -/
def toSingle? (x : Binary64) : Option UInt32 :=
  let sign := if x.negative then 2 ^ 31 else 0
  if x.isNaN then
    some (UInt32.ofNat (sign + binary32.infinity + 2 ^ 22 + x.word % 2 ^ 51 / 2 ^ 29))
  else if x.isInfinite then some (UInt32.ofNat (sign + binary32.infinity))
  else
    let word := binary32.nearest x.units (2 ^ narrowing)
    if word < binary32.infinity then some (UInt32.ofNat (sign + word)) else none

/-- The nearest number of single precision, unless a finite number is too large for it. -/
def narrow? (x : Binary64) : Option Binary64 := x.toSingle?.map ofSingle

end Binary64

end RecordWire
