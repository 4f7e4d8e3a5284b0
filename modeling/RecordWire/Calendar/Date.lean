import RecordWire.Text.Basic

/-!
Days of the Gregorian calendar, from the year 1 to the year 9999, and how they are written.
-/

namespace RecordWire

namespace Calendar

def isLeap (year : Nat) : Bool := year % 4 == 0 && (year % 100 != 0 || year % 400 == 0)

def monthLengths (year : Nat) : List Nat :=
  [31, if isLeap year then 29 else 28, 31, 30, 31, 30, 31, 31, 30, 31, 30, 31]

def isDay (year month day : Nat) : Bool :=
  1 ≤ year && year ≤ 9999 && 1 ≤ day &&
    match month with
    | 0 => false
    | m + 1 => (monthLengths year)[m]?.any (day ≤ ·)

/-- The number of days before a year. -/
def daysBefore (year : Nat) : Nat :=
  let past := year - 1
  365 * past + past / 4 - past / 100 + past / 400

def padded (width n : Nat) : Text :=
  let digits := Text.ofNat n
  List.replicate (width - digits.length) (CodePoint.ofChar '0') ++ digits

end Calendar

structure Date where
  year : Nat
  month : Nat
  day : Nat
  isDay : Calendar.isDay year month day = true
  deriving DecidableEq

namespace Date

def make? (year month day : Nat) : Option Date :=
  if h : Calendar.isDay year month day = true then some ⟨year, month, day, h⟩ else none

def number (d : Date) : Nat :=
  let months := (Calendar.monthLengths d.year).take (d.month - 1)
  Calendar.daysBefore d.year + months.foldr (· + ·) 0 + d.day

def text (d : Date) : Text :=
  Text.join "-" [Calendar.padded 4 d.year, Calendar.padded 2 d.month, Calendar.padded 2 d.day]

def parts (d : Date) : List Nat := [d.year, d.month, d.day]

def shown (d : Date) : Text :=
  "datetime.date(" ++ Text.join ", " (d.parts.map Text.ofNat) ++ ")"

end Date

end RecordWire
