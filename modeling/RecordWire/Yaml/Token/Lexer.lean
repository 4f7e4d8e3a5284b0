import RecordWire.Yaml.Token.Basic
import RecordWire.Yaml.Token.Plain
import RecordWire.Yaml.Token.Quoted

/-!
From text to tokens. A key of a mapping is recognised by the colon after it, so the place of the last
possible key is kept for each level of flow collections; the tokens of a key are put there when the
colon comes. Anchors, aliases, tags, directives and block scalars are refused.
-/

namespace RecordWire.Yaml

/-- A place where a key may have started. -/
structure PossibleKey where
  /-- The number of tokens before it. -/
  place : Nat
  /-- Whether nothing else can stand there. -/
  required : Bool
  index : Nat
  line : Nat
  column : Nat

structure Lexer where
  cursor : Cursor
  /-- The tokens so far, the last one first. -/
  tokens : List Token := []
  indent : Int := -1
  /-- The indentations around this one, the nearest first. -/
  outer : List Int := []
  keyAllowed : Bool := true
  /-- The possible key of each level, the innermost first. -/
  keys : List (Option PossibleKey) := [none]

namespace Lexer

def level (l : Lexer) : Nat := l.keys.length - 1

def inFlow (l : Lexer) : Bool := l.level ≠ 0

def push (l : Lexer) (t : Token) : Lexer := { l with tokens := t :: l.tokens }

def take (l : Lexer) (t : Token) : Lexer := { l with cursor := l.cursor.next }.push t

def insert (l : Lexer) (place : Nat) (t : Token) : Lexer :=
  let later := l.tokens.length - place
  { l with tokens := l.tokens.take later ++ t :: l.tokens.drop later }

def skipGap : (fuel : Nat) → Lexer → Lexer
  | 0, l => l
  | fuel + 1, l =>
    let c := l.cursor.skipWhile isSpace
    let c := if c.isAt (CodePoint.ofChar '#') then c.skipWhile fun p => !isBreak p else c
    match c.lineBreak? with
    | none => { l with cursor := c }
    | some (_, c) =>
      skipGap fuel { l with cursor := c, keyAllowed := l.keyAllowed || !l.inFlow }

def maxKeyLength : Nat := 1024

/-- Forgets a possible key that the line or the length rules out; a required one cannot be. -/
def freshKey? (c : Cursor) : Option PossibleKey → Option (Option PossibleKey)
  | none => some none
  | some k =>
    if k.line ≠ c.line || maxKeyLength < c.index - k.index then
      if k.required then none else some none
    else some (some k)

def dropStaleKeys? (l : Lexer) : Option Lexer :=
  (l.keys.mapM (freshKey? l.cursor)).map fun keys => { l with keys := keys }

/-- Forgets the possible key of the innermost level, which must not be required. -/
def dropKey? (l : Lexer) : Option Lexer :=
  match l.keys with
  | some k :: keys => if k.required then none else some { l with keys := none :: keys }
  | _ => some l

/-- Keeps the place as that of a possible key, if one can stand there. -/
def saveKey? (l : Lexer) : Option Lexer :=
  if !l.keyAllowed then some l
  else
    l.dropKey?.map fun l =>
      let c := l.cursor
      let key : PossibleKey :=
        ⟨l.tokens.length, !l.inFlow && l.indent = c.column, c.index, c.line, c.column⟩
      { l with keys := some key :: l.keys.tail }

/-- Ends the block collections that are indented more than a column. -/
def unwind (column : Int) : (outer : List Int) → Lexer → Lexer
  | [], l => l
  | indent :: outer, l =>
    if !l.inFlow && column < l.indent then
      unwind column outer ({ l with indent := indent, outer := outer }.push .blockEnd)
    else l

def unwindTo (l : Lexer) (column : Int) : Lexer := unwind column l.outer l

/-- Begins a block collection at a column, unless one is going on there. -/
def beginBlock (l : Lexer) (column place : Nat) (t : Token) : Lexer :=
  if l.indent < column then
    { l with indent := column, outer := l.indent :: l.outer }.insert place t
  else l

/-- Begins a block collection with a token where no key goes before it. -/
def blockToken? (l : Lexer) (begins t : Token) (keyAfter : Bool) : Option Lexer :=
  if !l.inFlow && !l.keyAllowed then none
  else
    let begun := if l.inFlow then l else l.beginBlock l.cursor.column l.tokens.length begins
    ({ begun with keyAllowed := keyAfter } : Lexer).dropKey?.map fun l => l.take t

def valueToken? (l : Lexer) : Option Lexer :=
  match l.keys with
  | some k :: keys =>
    let l := { l with keys := none :: keys, keyAllowed := false }
    let l := l.insert k.place .key
    let l := if l.inFlow then l else l.beginBlock k.column k.place .blockMap
    some (l.take .value)
  | _ => l.blockToken? .blockMap .value !l.inFlow

def openFlow? (l : Lexer) (t : Token) : Option Lexer :=
  l.saveKey?.map fun l =>
    ({ l with keys := none :: l.keys, keyAllowed := true } : Lexer).take t

def closeFlow? (l : Lexer) (t : Token) : Option Lexer :=
  if !l.inFlow then none
  else
    l.dropKey?.map fun l =>
      ({ l with keys := l.keys.tail, keyAllowed := false } : Lexer).take t

def comma? (l : Lexer) : Option Lexer :=
  ({ l with keyAllowed := true } : Lexer).dropKey?.map fun l => l.take .comma

def edge? (l : Lexer) (t : Token) : Option Lexer :=
  (l.unwindTo (-1)).dropKey?.map fun l =>
    { l with keyAllowed := false, cursor := l.cursor.skip 3 }.push t

def quoted (l : Lexer) (style : QuoteStyle) : Except Refusal Lexer :=
  match l.saveKey? with
  | none => .error .noDocument
  | some l =>
    (quotedScalar style l.cursor).map fun (text, c) =>
      { l with keyAllowed := false, cursor := c }.push (.scalar text false)

def plain? (l : Lexer) : Option Lexer :=
  l.saveKey?.map fun l =>
    let (text, crossed, c) := plainScalar l.inFlow l.indent l.cursor
    { l with keyAllowed := crossed, cursor := c }.push (.scalar text true)

/-- Reads the token that starts with a code point, which has some text after it, unless it is a quoted
scalar. -/
def bare? (l : Lexer) (p : CodePoint) (rest : Text) : Option Lexer :=
  let alone := startsWithGap rest
  if l.cursor.column = 0 && l.cursor.isAtMark "---" then l.edge? .documentStart
  else if l.cursor.column = 0 && l.cursor.isAtMark "..." then l.edge? .documentEnd
  else if p = CodePoint.openBracket then l.openFlow? .openList
  else if p = CodePoint.openBrace then l.openFlow? .openMap
  else if p = CodePoint.closeBracket then l.closeFlow? .closeList
  else if p = CodePoint.closeBrace then l.closeFlow? .closeMap
  else if p = CodePoint.comma then l.comma?
  else if p = CodePoint.ofChar '-' && alone then
    l.blockToken? .blockList .entry true
  else if p = CodePoint.ofChar '?' && (l.inFlow || alone) then
    l.blockToken? .blockMap .key !l.inFlow
  else if p = CodePoint.ofChar ':' && (l.inFlow || alone) then l.valueToken?
  else if startsPlain l.inFlow (p :: rest) then l.plain?
  else none

/-- Reads the token that starts with a code point, which has some text after it. -/
def token (l : Lexer) (p : CodePoint) (rest : Text) : Except Refusal Lexer :=
  if p = CodePoint.apostrophe then l.quoted .single
  else if p = CodePoint.quote then l.quoted .double
  else Refusal.ofOption (l.bare? p rest)

def run : (fuel : Nat) → Lexer → Except Refusal Lexer
  | 0, _ => .error .noDocument
  | fuel + 1, l =>
    match (l.skipGap (l.cursor.rest.length + 1)).dropStaleKeys? with
    | none => .error .noDocument
    | some l =>
      let l := l.unwindTo l.cursor.column
      match l.cursor.rest with
      | [] => Refusal.ofOption (l.unwindTo (-1)).dropKey?
      | p :: rest =>
        match l.token p rest with
        | .error why => .error why
        | .ok l => run fuel l

end Lexer

def Token.scan (t : Text) : Except Refusal (List Token) :=
  if !t.all isAllowed then .error .noDocument
  else
    let t := if t.head? = some byteOrderMark then t.tail else t
    (Lexer.run (t.length + 1) { cursor := { rest := t } }).map fun l => l.tokens.reverse

end RecordWire.Yaml
