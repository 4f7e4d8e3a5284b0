import RecordWire.Number.Shortest
import RecordWire.Yaml.Style.Writer

/-!
Writing values as documents: maps and lists in block style, each entry on a line of its own, and
empty ones between their brackets. Only plain data has a written form: nothing, booleans, numbers,
texts, lists, tuples and dictionaries.
-/

namespace RecordWire.Yaml

def indentStep : Nat := 2

/-- The longest key, with its tag, that stands on the line of its value. -/
def maxSimpleKey : Nat := 127

/-- A floating-point number; an exponent always has a point before it. -/
def numberText (x : Binary64) : Text :=
  if x.isNaN then ".nan"
  else if x.isInfinite then if x.negative then "-.inf" else ".inf"
  else
    let t := x.text
    let point := CodePoint.ofChar '.'
    let (mantissa, exponent) := t.span fun c => c ≠ CodePoint.ofChar 'e'
    if t.contains point || exponent.isEmpty then t else mantissa ++ ".0" ++ exponent

def scalarText? : Atom → Option (Text × Text)
  | .none => some ("null", "!!null")
  | .bool b => some (if b then "true" else "false", "!!bool")
  | .int n => some (Text.ofInt n, "!!int")
  | .float x _ => some (numberText x, "!!float")
  | .text t => some (t, "!!str")
  | .date d => some (d.text, "!!timestamp")
  | .moment m => some (m.text, "!!timestamp")
  | .bytes _ | .byteArray _ => none

/-- The style of a scalar. Only a text can be taken for something else. -/
def atomStyle (isKey : Bool) : Atom → Style
  | .text t => styleOf isKey t
  | _ => .plain

def isSimpleKey : Atom → Bool
  | a =>
    match scalarText? a with
    | none => false
    | some (t, tag) =>
      t.length + tag.length ≤ maxSimpleKey && !t.isEmpty && !t.any isLineEnd

def writeAtom (isKey : Bool) (indent : Option Nat) (a : Atom) (c : Canvas) : Option Canvas :=
  (scalarText? a).map fun (t, _) =>
    writeScalar (atomStyle isKey a) (!isKey) (indent.elim indentStep (· + indentStep)) t c

def simpleKey? : Value → Option Atom
  | .atom a => if isSimpleKey a then some a else none
  | _ => none

def Canvas.brackets (opening closing : Text) (c : Canvas) : Canvas :=
  (c.indicator opening true).indicator closing false

/-- The indentation of a list: that of the map around it, if it is the value of a key there. -/
def listIndent (indent : Option Nat) (ofKey : Bool) (c : Canvas) : Nat :=
  indent.elim 0 fun i => if ofKey && !c.fresh then i else i + indentStep

mutual

/-- Writes a value in a collection with an indentation. The flag says that it is the value of a
key, whose list need not be indented. -/
def write (indent : Option Nat) (ofKey : Bool) : Value → Canvas → Option Canvas
  | .atom a, c => writeAtom false indent a c
  | .list items, c | .tuple items, c =>
    if items.isEmpty then some (c.brackets "[" "]")
    else writeItems (listIndent indent ofKey c) items c
  | .dict entries, c =>
    if entries.isEmpty then some (c.brackets [CodePoint.openBrace] [CodePoint.closeBrace])
    else writeEntries (indent.elim 0 (· + indentStep)) entries c
  | .record _ _, _ => none

def writeItems (indent : Nat) : List Value → Canvas → Option Canvas
  | [], c => some c
  | v :: vs, c =>
    match write (some indent) false v ((c.indentTo indent).mark "-") with
    | none => none
    | some c => writeItems indent vs c

def writeEntries (indent : Nat) : List (Value × Value) → Canvas → Option Canvas
  | [], c => some c
  | (k, v) :: es, c =>
    let c := c.indentTo indent
    let keyed :=
      match simpleKey? k with
      | some a => (writeAtom true (some indent) a c).map fun c => c.indicator ":" false
      | none =>
        (write (some indent) true k (c.mark "?")).map fun c => (c.indentTo indent).mark ":"
    match keyed with
    | none => none
    | some c =>
      match write (some indent) true v c with
      | none => none
      | some c => writeEntries indent es c

end

def print (v : Value) : Option Text :=
  (write none false v {}).map fun c => (c.indentTo 0).text

end RecordWire.Yaml
