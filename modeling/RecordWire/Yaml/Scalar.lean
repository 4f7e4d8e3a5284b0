import RecordWire.Number.Numeral
import RecordWire.Value.Basic
import RecordWire.Yaml.Refusal
import RecordWire.Yaml.Timestamp

/-!
What a plain scalar means: nothing, a boolean, a number, a day, a moment, one of the two special keys,
or the text itself. Numbers may have underscores and a base, and may be given in base sixty with
colons.
-/

namespace RecordWire.Yaml

inductive Plain
  | atom (a : Atom)
  /-- A scalar that has a form without the value that goes with it. -/
  | refused (why : Refusal)
  /-- The key under which other mappings are merged in. -/
  | merge
  /-- The key that stands for a mapping as a whole. -/
  | default

namespace Plain

def isUnderscore (c : CodePoint) : Bool := c = CodePoint.ofChar '_'

def withoutUnderscores (t : Text) : Text := t.filter fun c => !isUnderscore c

def isDigits (t : Text) : Bool := !t.isEmpty && t.all CodePoint.isDigit

def isDigitOrUnderscore (c : CodePoint) : Bool := c.isDigit || isUnderscore c

def isDecimal : Text → Bool
  | [] => false
  | c :: t => c.isDigit && t.all isDigitOrUnderscore

def digitValue (c : CodePoint) : Nat :=
  if c.isDigit then c.val - 0x30 else c.toLower.val - 0x57

/-- The number that digits in a base are; underscores do not count. -/
def valueIn (base : Nat) (t : Text) : Nat :=
  (withoutUnderscores t).foldl (fun n c => base * n + digitValue c) 0

/-- A part after a colon: one digit, or two of which the first is less than six. -/
def isSixtieth : Text → Bool
  | [d] => d.isDigit
  | [c, d] => c.isDigit && c.val < 0x36 && d.isDigit
  | _ => false

/-- The number that digits in a base are, of which there has to be one. -/
def readIn (base : Nat) (t : Text) : Except Refusal Nat :=
  if t.all isUnderscore then .error .noValue else .ok (valueIn base t)

/-- The number that decimal digits are, unless there are too many. -/
def readDecimal (t : Text) : Except Refusal Nat :=
  if Numeral.maxDigits < (withoutUnderscores t).length then .error .noValue
  else .ok (valueIn 10 t)

def sixtieths (parts : List Text) : Except Refusal Nat :=
  parts.foldlM (fun n p => (readDecimal p).map fun m => 60 * n + m) 0

def magnitude? (t : Text) : Option (Except Refusal Nat) :=
  match t with
  | [] => none
  | [c] => if c.isDigit then some (.ok (digitValue c)) else none
  | c :: d :: rest =>
    if c = CodePoint.ofChar '0' then
      if d = CodePoint.ofChar 'b' then
        if !rest.isEmpty && rest.all fun e => e.val == 0x30 || e.val == 0x31 || isUnderscore e then
          some (readIn 2 rest)
        else none
      else if d = CodePoint.ofChar 'x' then
        if !rest.isEmpty && rest.all fun e =>
            isDigitOrUnderscore e || (0x61 ≤ e.toLower.val && e.toLower.val ≤ 0x66) then
          some (readIn 16 rest)
        else none
      else if (d :: rest).all fun e => (0x30 ≤ e.val && e.val ≤ 0x37) || isUnderscore e then
        some (.ok (valueIn 8 (d :: rest)))
      else none
    else
      match Text.splitOn ':' t with
      | [] => none
      | first :: parts =>
        if isDecimal first && parts.all isSixtieth then some (sixtieths (first :: parts)) else none

def integer? (t : Text) : Option (Except Refusal Int) :=
  let (negative, body) := Numeral.splitSign t
  (magnitude? body).map fun n => n.map fun n => if negative then -(n : Int) else n

/-- The digits before and after a point, and the exponent with its sign, which is not left out. -/
def splitDecimal? (t : Text) : Option (Text × Text × Text) :=
  let (whole, rest) := t.span isDigitOrUnderscore
  match rest with
  | [] => none
  | p :: rest =>
    if p ≠ CodePoint.ofChar '.' then none
    else
      let (part, exponent) := rest.span isDigitOrUnderscore
      let fits :=
        match exponent with
        | [] => true
        | e :: sign :: digits =>
          e.toLower = CodePoint.ofChar 'e' && (Text.ofString "+-").elem sign && isDigits digits
        | _ => false
      if fits then some (whole, part, exponent) else none

/-- The sum of numbers, each times the power of sixty that is its place. The sum is rounded at every
step. -/
def sumOfPlaces : (power : Nat) → Binary64 → List Binary64 → Except Refusal Binary64
  | _, sum, [] => .ok sum
  | power, sum, x :: xs =>
    match Binary64.ofInt? (60 ^ power) with
    | none => .error .tooLarge
    | some place => sumOfPlaces (power + 1) (sum.add (x.mul place)) xs

def sexagesimal? (negative : Bool) (t : Text) : Option (Except Refusal Binary64) :=
  match (Text.splitOn ':' t).reverse with
  | last :: first :: rest =>
    match splitDecimal? last, (first :: rest).reverse with
    | some (whole, _, []), head :: middle =>
      if isDecimal head && middle.all isSixtieth && isSixtieth whole then
        let parts := (last :: first :: rest).map fun p =>
          (Numeral.readDecimal? false (withoutUnderscores p)).getD .zero
        some ((sumOfPlaces 0 .zero parts).map fun x => if negative then x.negate else x)
      else none
    | _, _ => none
  | _ => none

def number? (t : Text) : Option (Except Refusal Binary64) :=
  let (negative, body) := Numeral.splitSign t
  if [".inf", ".Inf", ".INF"].any (fun s => Text.ofString s == body) then
    some (.ok (Binary64.infinity negative))
  else if [".nan", ".NaN", ".NAN"].any (fun s => Text.ofString s == t) then
    some (.ok (Binary64.nan true))
  else
    match splitDecimal? body with
    | some (whole, part, _) =>
      if isDecimal whole || (whole.isEmpty && isDecimal part && body.length = t.length) then
        (Numeral.readDecimal? negative (withoutUnderscores body)).map .ok
      else none
    | none => sexagesimal? negative body

def words (ws : List String) (t : Text) : Bool := ws.any fun w => Text.ofString w == t

def isTrue : Text → Bool := words ["yes", "Yes", "YES", "true", "True", "TRUE", "on", "On", "ON"]

def isFalse : Text → Bool := words ["no", "No", "NO", "false", "False", "FALSE", "off", "Off", "OFF"]

def isNull (t : Text) : Bool := t.isEmpty || words ["~", "null", "Null", "NULL"] t

def nanObject : Nat := 1

def ofNumber (x : Binary64) : Atom := .float x (if x.isNaN then nanObject else 0)

def ofResult : Except Refusal Atom → Plain
  | .ok a => .atom a
  | .error why => .refused why

def ofText (t : Text) : Plain :=
  if isTrue t then .atom (.bool true)
  else if isFalse t then .atom (.bool false)
  else match number? t, integer? t with
    | some x, _ => ofResult (x.map ofNumber)
    | none, some n => ofResult (n.map .int)
    | none, none =>
      if t = "<<" then .merge
      else if isNull t then .atom .none
      else match Timestamp.read? t with
        | some (.day d?) => ofResult (d?.elim (.error .noValue) fun d => .ok (.date d))
        | some (.moment m?) => ofResult (m?.elim (.error .noValue) fun m => .ok (.moment m))
        | none => if t = "=" then .default else .atom (.text t)

end Plain

end RecordWire.Yaml
