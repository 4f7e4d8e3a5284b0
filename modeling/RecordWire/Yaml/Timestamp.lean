import RecordWire.Calendar.Moment

/-!
Days and moments as documents write them: year, month and day with dashes, and behind a `T` or blanks
the time, which may have a fraction and a zone.
-/

namespace RecordWire.Yaml

/-- A text of the form of a day or a moment, with the value if there is one. -/
inductive Timestamp
  | day (d? : Option Date)
  | moment (m? : Option Moment)

namespace Timestamp

/-- A number of as many digits as a text starts with, within bounds, and what follows it. -/
def digits? (least most : Nat) (t : Text) : Option (Nat × Text) :=
  let digits := (t.take most).takeWhile CodePoint.isDigit
  if digits.length < least then none
  else some (digits.foldl (fun n c => 10 * n + (c.val - 0x30)) 0, t.drop digits.length)

def isBlank (c : CodePoint) : Bool := c.val == 0x20 || c.val == 0x09

/-- The time of day and the zone behind a day. -/
structure Clock where
  hour : Nat
  minute : Nat
  second : Nat
  micro : Nat
  offset? : Option Int

/-- The microseconds that the digits of a fraction are: the first six count. -/
def microseconds (fraction : Text) : Nat :=
  let digits := fraction.take 6
  digits.foldl (fun n c => 10 * n + (c.val - 0x30)) 0 * 10 ^ (6 - digits.length)

/-- A zone, which may be left out: `Z`, or hours and perhaps minutes behind a sign. The inner result
is missing for no zone. -/
def zone? (t : Text) : Option (Option Int) :=
  if t.isEmpty then some none
  else
    match t.dropWhile isBlank with
    | [] => none
    | sign :: rest =>
      if sign = CodePoint.ofChar 'Z' then if rest.isEmpty then some (some 0) else none
      else if sign = CodePoint.ofChar '+' || sign = CodePoint.ofChar '-' then
        (digits? 1 2 rest).bind fun (hours, rest) =>
          let minutes? := if rest.isEmpty then some (0, []) else
            (Text.dropPrefix? ":" rest).bind (digits? 2 2)
          minutes?.bind fun (minutes, rest) =>
            let offset : Int := 60 * hours + minutes
            if rest.isEmpty then
              some (some (if sign = CodePoint.ofChar '-' then -offset else offset))
            else none
      else none

def clock? (t : Text) : Option Clock := do
  let (hour, t) ← digits? 1 2 t
  let (minute, t) ← (Text.dropPrefix? ":" t).bind (digits? 2 2)
  let (second, t) ← (Text.dropPrefix? ":" t).bind (digits? 2 2)
  let (fraction, t) :=
    match Text.dropPrefix? "." t with
    | some t => t.span CodePoint.isDigit
    | none => ([], t)
  let offset? ← zone? t
  return ⟨hour, minute, second, microseconds fraction, offset?⟩

def dropGap? : Text → Option Text
  | [] => none
  | c :: t =>
    if c.toLower = CodePoint.ofChar 't' then some t
    else if isBlank c then some (t.dropWhile isBlank)
    else none

/-- The day or moment that a text has the form of. A day without a time has two digits for its month
and its day. -/
def read? (t : Text) : Option Timestamp := do
  let (year, rest) ← digits? 4 4 t
  let (month, rest) ← (Text.dropPrefix? "-" rest).bind (digits? 1 2)
  let (number, rest) ← (Text.dropPrefix? "-" rest).bind (digits? 1 2)
  let date? := Date.make? year month number
  if rest.isEmpty then
    if t.length = 10 then return .day date? else none
  else
    let clock ← (dropGap? rest).bind clock?
    return .moment (date?.bind fun date =>
      Moment.make? date clock.hour clock.minute clock.second clock.micro clock.offset?)

end Timestamp

end RecordWire.Yaml
