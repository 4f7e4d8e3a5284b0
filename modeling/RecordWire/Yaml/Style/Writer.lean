import RecordWire.Yaml.Canvas
import RecordWire.Yaml.Style.Basic
import RecordWire.Yaml.Token.Quoted

/-!
Writing scalars. A long scalar is continued on the next line at a space, unless it is a key on the
line of its value; between double quotes a backslash ends such a line.
-/

namespace RecordWire.Yaml

def stretch (p : CodePoint → Bool) (t : Text) : Text × Text := t.span p

/-- Writes a plain scalar; lines may be split if the flag says so. The fuel bounds the parts. -/
def writePlainParts (split : Bool) (indent : Nat) : (fuel : Nat) → Text → Canvas → Canvas
  | 0, _, c => c
  | _ + 1, [], c => c
  | fuel + 1, p :: t, c =>
    if isSpace p then
      let (spaces, rest) := stretch isSpace (p :: t)
      let c :=
        if spaces.length = 1 && Canvas.width < c.column && split then c.continueAt indent
        else c.put spaces
      writePlainParts split indent fuel rest c
    else
      let (run, rest) := stretch (fun q => !isSpace q) (p :: t)
      writePlainParts split indent fuel rest (c.put run)

def writePlain (split : Bool) (indent : Nat) (t : Text) (c : Canvas) : Canvas :=
  if t.isEmpty then c
  else
    let c := if c.spaced then c else c.put [CodePoint.ofChar ' ']
    writePlainParts split indent t.length t { c with spaced := false, fresh := false }

/-- Writes line ends; the first line feed needs a second one to be kept. -/
def writeLineEnds (ends : Text) (indent : Nat) (c : Canvas) : Canvas :=
  let c := if ends.head? = some CodePoint.lineFeed then c.endLine CodePoint.lineFeed else c
  (ends.foldl (fun c e => c.endLine e) c).indentTo indent

/-- Writes what stands between apostrophes. The flag `start` says that nothing has been written. -/
def writeSingleParts (split : Bool) (indent : Nat) :
    (fuel : Nat) → (start : Bool) → Text → Canvas → Canvas
  | 0, _, _, c => c
  | _ + 1, _, [], c => c
  | fuel + 1, start, p :: t, c =>
    if isSpace p then
      let (spaces, rest) := stretch isSpace (p :: t)
      let c :=
        if spaces.length = 1 && Canvas.width < c.column && split && !start && !rest.isEmpty then
          c.indentTo indent
        else c.put spaces
      writeSingleParts split indent fuel false rest c
    else if isLineEnd p then
      let (ends, rest) := stretch isLineEnd (p :: t)
      writeSingleParts split indent fuel false rest (writeLineEnds ends indent c)
    else if p = CodePoint.apostrophe then
      writeSingleParts split indent fuel false t (c.put [p, p])
    else
      let (run, rest) :=
        stretch (fun q => !isSpace q && !isLineEnd q && q ≠ CodePoint.apostrophe) (p :: t)
      writeSingleParts split indent fuel false rest (c.put run)

def writeSingle (split : Bool) (indent : Nat) (t : Text) (c : Canvas) : Canvas :=
  let c := c.indicator [CodePoint.apostrophe] true
  (writeSingleParts split indent t.length true t c).indicator [CodePoint.apostrophe] false

def isVerbatim (c : CodePoint) : Bool :=
  c ≠ CodePoint.quote && c ≠ CodePoint.backslash && c ≠ byteOrderMark && !isLineEnd c &&
    ((0x20 ≤ c.val && c.val ≤ 0x7E) || (0xA0 ≤ c.val && c.val ≤ 0xD7FF) ||
      (0xE000 ≤ c.val && c.val ≤ 0xFFFD))

def upperHex (width n : Nat) : Text := Text.toUpper (Text.hex width n)

def escaped (c : CodePoint) : Text :=
  match letterEscapes.find? fun e => e.2 = c.val && e.1 ≠ '\t' && e.1 ≠ ' ' && e.1 ≠ '/' with
  | some e => [CodePoint.backslash, CodePoint.ofChar e.1]
  | none =>
    if c.val ≤ 0xFF then CodePoint.backslash :: 'x' :: upperHex 2 c.val
    else if c.val ≤ 0xFFFF then CodePoint.backslash :: 'u' :: upperHex 4 c.val
    else CodePoint.backslash :: 'U' :: upperHex 8 c.val

/-- Writes what stands between double quotes. A line may be split at a space or after an escape, with
a backslash at its end, and with another one before a space that the next line starts with. What is
pending is verbatim and comes last first; the flag says that nothing has gone before. -/
def writeDoubleParts (split : Bool) (indent : Nat) :
    (first : Bool) → (pending : Text) → Text → Canvas → Canvas
  | _, pending, [], c => c.put pending.reverse
  | first, pending, p :: rest, c =>
    let isEscape := !isVerbatim p
    let c := if isEscape then (c.put pending.reverse).put (escaped p) else c
    let pending := if isEscape then [] else pending
    let isWide := Canvas.width < c.column + pending.length - (if isEscape then 1 else 0)
    let splits := split && !first && !rest.isEmpty && (isSpace p || pending.isEmpty) && isWide
    let c :=
      if splits then
        let c := (c.put (pending.reverse ++ [CodePoint.backslash])).continueAt indent
        let next := if isEscape then rest.head? else some p
        if next = some (CodePoint.ofChar ' ') then c.put [CodePoint.backslash] else c
      else c
    let pending := if splits then [] else pending
    writeDoubleParts split indent false (if isEscape then pending else p :: pending) rest c

def writeDouble (split : Bool) (indent : Nat) (t : Text) (c : Canvas) : Canvas :=
  (writeDoubleParts split indent true [] t (c.indicator [CodePoint.quote] true)).indicator
    [CodePoint.quote] false

def writeScalar (style : Style) (split : Bool) (indent : Nat) (t : Text) (c : Canvas) : Canvas :=
  match style with
  | .plain => writePlain split indent t c
  | .single => writeSingle split indent t c
  | .double => writeDouble split indent t c

end RecordWire.Yaml
