import RecordWire.Number.Binary64
import RecordWire.Text.Basic

/-!
The shortest decimal of a finite number: of the decimals that round to the number, those with the
fewest digits, and of these the nearest. Written positionally from `0.0001` up to below `10 ^ 16`,
else with an exponent of at least two digits.
-/

namespace RecordWire.Binary64

/-- A positive decimal, `digits * 10 ^ exponent`. -/
structure Decimal where
  digits : Nat
  exponent : Int

/-- What rounds to a number lies between `low` and `high`, which belong to it if `closed`. All
three bounds are in units of `2 ^ -1075`. -/
structure Interval where
  low : Nat
  value : Nat
  high : Nat
  closed : Bool

/-- The decimals that round to the positive number of a word. -/
def interval (word : Nat) : Interval :=
  let f := BinaryFormat.binary64
  let u := f.units word
  { low := f.units (word - 1) + u, value := 2 * u, high := u + f.units (word + 1)
    closed := word % 2 = 0 }

def Interval.contains (i : Interval) (n : Nat) : Bool :=
  (i.low < n && n < i.high) || (i.closed && (n = i.low || n = i.high))

def Interval.scale (i : Interval) (k : Nat) : Interval :=
  { i with low := i.low * k, value := i.value * k, high := i.high * k }

/-- Of the two neighbours of the value among the multiples of `grid` the nearer one that lies in
the interval, as a multiple. -/
def Interval.nearestMultiple? (i : Interval) (grid : Nat) : Option Nat :=
  let d := i.value / grid
  let below := i.contains (d * grid)
  let above := i.contains ((d + 1) * grid)
  let r := i.value - d * grid
  if below && above then
    some (if 2 * r < grid || (2 * r = grid && d % 2 = 0) then d else d + 1)
  else if below then some d
  else if above then some (d + 1)
  else none

def digitCount (n : Nat) : Nat := (Nat.toDigits 10 n).length

/-- The exponent of the leading decimal digit of a positive quotient. -/
def leadingExponent (num den : Nat) : Int :=
  if den ≤ num then (digitCount (num / den) : Int) - 1
  else -(digitCount ((den + num - 1) / num - 1) : Int)

/-- The nearest decimal with digits down to `10 ^ exponent` that lies in the interval. -/
def Interval.decimalAt? (i : Interval) (exponent : Int) : Option Decimal :=
  let half := 2 * one
  if 0 ≤ exponent then
    (i.nearestMultiple? (half * 10 ^ exponent.toNat)).map (⟨·, exponent⟩)
  else ((i.scale (10 ^ (-exponent).toNat)).nearestMultiple? half).map (⟨·, exponent⟩)

/-- The first decimal found when the last digit goes down place by place. -/
def Interval.search (i : Interval) : (fuel : Nat) → (exponent : Int) → Decimal
  | 0, exponent => ⟨0, exponent⟩
  | fuel + 1, exponent =>
    match i.decimalAt? exponent with
    | some d => d
    | none => i.search fuel (exponent - 1)

/-- The shortest decimal of the positive number of a word. Seventeen digits tell all of them
apart. -/
def shortest (word : Nat) : Decimal :=
  let i := interval word
  i.search 17 (leadingExponent i.value (2 * one))

def zeros (n : Nat) : Text := List.replicate n (CodePoint.ofChar '0')

def exponentText (e : Int) : Text :=
  let digits := Text.ofNat e.natAbs
  (if e < 0 then "e-" else "e+") ++ zeros (2 - digits.length) ++ digits

/-- Digits without zeros at the end, the point standing after `point` of them. -/
def layout (digits : Text) (point : Int) : Text :=
  let n : Int := digits.length
  if point ≤ -4 || 16 < point then
    let (lead, rest) := digits.splitAt 1
    lead ++ (if rest.isEmpty then rest else "." ++ rest) ++ exponentText (point - 1)
  else if point ≤ 0 then "0." ++ zeros (-point).toNat ++ digits
  else if n ≤ point then digits ++ zeros (point - n).toNat ++ ".0"
  else digits.take point.toNat ++ "." ++ digits.drop point.toNat

def dropTrailingZeros (digits : Text) : Text :=
  (digits.reverse.dropWhile fun c => c = CodePoint.ofChar '0').reverse

def Decimal.text (d : Decimal) : Text :=
  let digits := Text.ofNat d.digits
  layout (dropTrailingZeros digits) (digits.length + d.exponent)

def text (x : Binary64) : Text :=
  if x.isNaN then "nan"
  else
    let sign : Text := if x.negative then "-" else []
    if x.isInfinite then sign ++ "inf"
    else if x.word = 0 then sign ++ "0.0"
    else sign ++ (shortest x.word).text

end RecordWire.Binary64
