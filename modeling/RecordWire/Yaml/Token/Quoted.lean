import RecordWire.Number.Power
import RecordWire.Yaml.Cursor
import RecordWire.Yaml.Refusal

/-!
Quoted scalars. Between apostrophes only an apostrophe is written in a way of its own, namely twice;
between double quotes a backslash starts an escape. Line breaks are folded.
-/

namespace RecordWire.Yaml

inductive QuoteStyle
  | single | double
  deriving DecidableEq, Repr

namespace QuoteStyle

def mark : QuoteStyle → CodePoint
  | single => CodePoint.apostrophe
  | double => CodePoint.quote

end QuoteStyle

def letterEscapes : List (Char × Nat) :=
  [('0', 0x00), ('a', 0x07), ('b', 0x08), ('t', 0x09), ('\t', 0x09), ('n', 0x0A), ('v', 0x0B),
    ('f', 0x0C), ('r', 0x0D), ('e', 0x1B), (' ', 0x20), ('"', 0x22), ('\\', 0x5C), ('/', 0x2F),
    ('N', 0x85), ('_', 0xA0), ('L', 0x2028), ('P', 0x2029)]

def letterEscape? (c : CodePoint) : Option CodePoint :=
  (letterEscapes.find? fun e => CodePoint.ofChar e.1 = c).map fun e => CodePoint.ofNat e.2

def escapeWidth? (c : CodePoint) : Option Nat :=
  if c = CodePoint.ofChar 'x' then some 2
  else if c = CodePoint.ofChar 'u' then some 4
  else if c = CodePoint.ofChar 'U' then some 8
  else none

def hexValue? (c : CodePoint) : Option Nat :=
  if c.isDigit then some (c.val - 0x30)
  else
    let n := c.toLower.val
    if 0x61 ≤ n && n ≤ 0x66 then some (n - 0x57) else none

def hexNumber? (t : Text) : Option Nat :=
  t.foldlM (fun n c => (hexValue? c).map fun d => 16 * n + d) 0

def codePoint (n : Nat) : Except Refusal CodePoint :=
  if n < 0x110000 then .ok (CodePoint.ofNat n)
  else if n < 2 ^ 31 then .error .noValue
  else .error .tooLarge

/-- What an escape stands for, and the place after it. The place given is behind the backslash. -/
def escape (c : Cursor) : Except Refusal (Text × Cursor) :=
  match c.rest with
  | [] => .error .noDocument
  | p :: rest =>
    match letterEscape? p, escapeWidth? p with
    | some q, _ => .ok ([q], c.next)
    | none, some width =>
      if rest.length < width then .error .noDocument
      else
        match hexNumber? (rest.take width) with
        | none => .error .noDocument
        | some n => (codePoint n).map fun q => ([q], c.skip (width + 1))
    | none, none =>
      match c.lineBreak? with
      | none => .error .noDocument
      | some (_, c) =>
        Refusal.ofOption (c.breaks? (fun p => isSpace p || isTab p) (c.rest.length + 1))

/-- What the spaces and line breaks at a place count as within a quoted scalar. -/
def quotedSpaces? (c : Cursor) : Option (Text × Cursor) :=
  let isBlank (p : CodePoint) : Bool := isSpace p || isTab p
  let blanks := c.rest.takeWhile isBlank
  let c := c.skipWhile isBlank
  match c.lineBreak? with
  | none => if c.rest.isEmpty then none else some (blanks, c)
  | some (first, c) =>
    (c.breaks? isBlank (c.rest.length + 1)).map fun (more, c) => (Cursor.folded first more, c)

/-- Reads a quoted scalar whose opening quote has gone before, and its closing quote. -/
def quotedBody (style : QuoteStyle) : (fuel : Nat) → Cursor → Except Refusal (Text × Cursor)
  | 0, _ => .error .noDocument
  | fuel + 1, c =>
    match c.rest with
    | [] => .error .noDocument
    | p :: rest =>
      let continued (part : Text) (c : Cursor) : Except Refusal (Text × Cursor) :=
        (quotedBody style fuel c).map fun (more, c) => (part ++ more, c)
      if p = style.mark then
        if style = .single && rest.head? = some p then continued [p] c.next.next
        else .ok ([], c.next)
      else if style = .double && p = CodePoint.backslash then
        match escape c.next with
        | .error why => .error why
        | .ok (part, c) => continued part c
      else if isGap p then
        match quotedSpaces? c with
        | none => .error .noDocument
        | some (part, c) => continued part c
      else continued [p] c.next

def quotedScalar (style : QuoteStyle) (c : Cursor) : Except Refusal (Text × Cursor) :=
  quotedBody style (c.rest.length + 1) c.next

end RecordWire.Yaml
