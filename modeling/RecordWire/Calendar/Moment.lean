import RecordWire.Calendar.Date
import RecordWire.Number.Power

/-!
Times of day on a day, to the microsecond. A moment may have an offset: how many minutes its clock is
ahead of the common one. Moments with an offset are compared by the common clock, and not at all with
moments without one.
-/

namespace RecordWire

namespace Calendar

def minutesOfDay : Nat := 24 * 60

/-- Whether a clock can be ahead by so many minutes: less than a day, either way. -/
def isOffset (minutes : Int) : Bool := minutes.natAbs < minutesOfDay

def isTime (hour minute second micro : Nat) : Bool :=
  hour < 24 && minute < 60 && second < 60 && micro < 10 ^ 6

def offsetText (minutes : Int) : Text :=
  (if minutes < 0 then "-" else "+") ++
    padded 2 (minutes.natAbs / 60) ++ ":" ++ padded 2 (minutes.natAbs % 60)

/-- An offset as days and seconds, of which only the days may be negative. -/
def offsetShown (minutes : Int) : Text :=
  if minutes = 0 then "datetime.timezone.utc"
  else
    let seconds := "seconds=" ++ Text.ofInt (60 * (minutes % (minutesOfDay : Int)))
    "datetime.timezone(datetime.timedelta(" ++
      (if minutes < 0 then "days=-1, " ++ seconds else seconds) ++ "))"

end Calendar

structure Moment where
  date : Date
  hour : Nat
  minute : Nat
  second : Nat
  micro : Nat
  offset? : Option Int
  deriving DecidableEq

namespace Moment

def make? (date : Date) (hour minute second micro : Nat) (offset? : Option Int) : Option Moment :=
  if Calendar.isTime hour minute second micro && offset?.all Calendar.isOffset then
    some ⟨date, hour, minute, second, micro, offset?⟩
  else none

/-- The microseconds from the first day on, by the moment's own clock. -/
def count (m : Moment) : Nat :=
  (((m.date.number * 24 + m.hour) * 60 + m.minute) * 60 + m.second) * 10 ^ 6 + m.micro

def common? (m n : Moment) : Option (Int × Int) :=
  match m.offset?, n.offset? with
  | none, none => some (m.count, n.count)
  | some a, some b => some (m.count - a * (60 * 10 ^ 6), n.count - b * (60 * 10 ^ 6))
  | _, _ => none

def equal (m n : Moment) : Bool := (common? m n).any fun p => p.1 == p.2

def before? (m n : Moment) : Option Bool := (common? m n).map fun p => decide (p.1 < p.2)

def fractionText (m : Moment) : Text :=
  if m.micro = 0 then [] else "." ++ Calendar.padded 6 m.micro

def zoneText (m : Moment) : Text := m.offset?.elim [] Calendar.offsetText

/-- Day and time, with the microseconds if there are any and the offset if there is one. -/
def text (m : Moment) : Text :=
  m.date.text ++ " " ++ Text.join ":" ([m.hour, m.minute, m.second].map (Calendar.padded 2)) ++
    m.fractionText ++ m.zoneText

/-- The numbers of a moment, without seconds and microseconds that are zero to the end. -/
def parts (m : Moment) : List Nat :=
  m.date.parts ++ [m.hour, m.minute] ++
    (if m.micro ≠ 0 then [m.second, m.micro] else if m.second ≠ 0 then [m.second] else [])

def zoneShown (m : Moment) : Text :=
  match m.offset? with
  | none => []
  | some minutes => ", tzinfo=" ++ Calendar.offsetShown minutes

def shown (m : Moment) : Text :=
  "datetime.datetime(" ++ Text.join ", " (m.parts.map Text.ofNat) ++ m.zoneShown ++ ")"

end Moment

end RecordWire
