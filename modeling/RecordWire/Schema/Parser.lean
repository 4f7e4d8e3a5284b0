import RecordWire.Schema.Declaration
import RecordWire.Schema.TypeExpr.Parser
import RecordWire.Text.Digit
import RecordWire.Text.Line

/-!
Reading schemas line by line. A version line and a package line come first, then structs: a header
line, lines that declare fields of one type, and a closing brace. Comments and blank lines do not
count. A problem is found at a column of its line.
-/

namespace RecordWire.Schema

/-- A line without a comment at its end. Slashes between double quotes start no comment; the flag
says that a quote is open. -/
def stripComment (quoted : Bool) : Text → Text
  | [] => []
  | c :: t =>
    if c = CodePoint.quote then c :: stripComment (!quoted) t
    else if !quoted && c = CodePoint.ofChar '/' && t.head? = some (CodePoint.ofChar '/') then []
    else c :: stripComment quoted t

/-- A problem and the column that it is at. -/
structure Located where
  problem : SchemaProblem
  column : Nat

abbrev Parsed (α : Type) := Except Located α

def problem {α : Type} (p : SchemaProblem) (column : Nat) : Parsed α := .error ⟨p, column⟩

/-- Runs of digits separated by points, as many as the number says. -/
def isVersion : Nat → Text → Bool
  | 0, _ => false
  | n + 1, t =>
    let (digits, rest) := t.span CodePoint.isDigit
    !digits.isEmpty &&
      match rest with
      | [] => n = 0
      | c :: r => c = CodePoint.ofChar '.' && isVersion n r

/-- A keyword, its argument, and the column of the argument. -/
structure KeywordLine where
  keyword : Text
  argument : Text
  offset : Nat

def KeywordLine.ofText (line : Text) : KeywordLine :=
  let (keyword, rest) := line.span fun c => !c.isBlank
  let argument := Text.trimLeft rest
  ⟨keyword, argument, line.length - argument.length⟩

/-- Reads the version of a line that stands `indent` blanks from the left. -/
def parseVersion (indent : Nat) (line : Text) : Parsed Text :=
  let l := KeywordLine.ofText line
  if l.keyword ≠ "syntax" then problem (.notVersionKeyword l.keyword) indent
  else if l.argument.isEmpty then problem .noVersion indent
  else if isVersion 3 l.argument then .ok l.argument
  else problem (.version l.argument) (indent + l.offset)

def parsePackage (indent : Nat) (line : Text) : Parsed Text :=
  let l := KeywordLine.ofText line
  if l.keyword ≠ "package" then problem (.notPackageKeyword l.keyword) indent
  else if l.argument.isIdentifier then .ok l.argument
  else problem (.packageName l.argument) (indent + l.offset)

/-- The header of a struct: its name, and whether its closing brace stands on the same line. -/
structure Header where
  name : Text
  closed : Bool

/-- Reads the header of a struct that is none of the structs named. -/
def parseHeader (names : List Text) (indent : Nat) (line : Text) : Parsed Header :=
  let (keyword, rest) := line.span fun c => !c.isBlank
  if keyword ≠ "struct" then problem (.notStructKeyword keyword) indent
  else
    let rest := Text.trimLeft rest
    let (name, after) := rest.span fun c => !c.isBlank && c ≠ CodePoint.openBrace
    if name.isEmpty then problem .noStructName (indent + line.length)
    else
      let column := indent + (line.length - rest.length)
      if !Text.isIdentifier name then problem (.structName name) column
      else
        match Text.trimLeft after with
        | [] => problem .noOpenBrace (column + name.length)
        | c :: body =>
          if c ≠ CodePoint.openBrace then problem .noOpenBrace (column + name.length)
          else if names.contains name then problem (.duplicateStruct name) column
          else
            let text := Text.trimLeft body
            if text = [CodePoint.closeBrace] then .ok ⟨name, true⟩
            else if text.isEmpty then .ok ⟨name, false⟩
            else problem (.textAfterBrace text) (indent + (line.length - body.length))

/-- The type at the start of a line and the rest of the line. The type ends at the first blank that
stands in no brackets. -/
def splitType (column depth : Nat) : Text → Parsed (Text × Text)
  | [] => if depth = 0 then .ok ([], []) else problem .openBracket column
  | c :: t =>
    if c = CodePoint.closeBracket && depth = 0 then problem .closingBracket column
    else if c.isBlank && depth = 0 then .ok ([], c :: t)
    else
      let depth := if c = CodePoint.openBracket then depth + 1
        else if c = CodePoint.closeBracket then depth - 1 else depth
      (splitType (column + 1) depth t).map fun (type, rest) => (c :: type, rest)

/-- The parts of a text between the commas outside of double quotes, unless a quote stays open. -/
def splitDeclarations (quoted : Bool) : Text → Option (List Text)
  | [] => if quoted then none else some [[]]
  | c :: t =>
    if c = CodePoint.comma && !quoted then (splitDeclarations quoted t).map ([] :: ·)
    else
      (splitDeclarations (if c = CodePoint.quote then !quoted else quoted) t).map
        (TypeExpr.consPart c)

/-- The text of a default value of a type: without its quotes if the type is a string, else one
word. -/
def parseDefault (type : TypeExpr) (column : Nat) (text : Text) : Parsed Text :=
  if text.isEmpty then problem .noDefault column
  else if text = "null" then problem .nullDefault column
  else if type = .primitive (.proper .string) then
    if 2 ≤ text.length && text.head? = some CodePoint.quote && text.getLast? = some CodePoint.quote
    then .ok text.tail.dropLast
    else problem .unquotedDefault column
  else if text.countWords false = 1 then .ok text
  else problem (.default text) column

/-- One declaration of a line: a name, and after an equals sign a default value. -/
def parseDeclaration (type : TypeExpr) (line column : Nat) (segment : Text) : Parsed FieldDecl :=
  let (namePart, rest) := segment.span (· ≠ CodePoint.ofChar '=')
  let column := column + (segment.length - (Text.trimLeft segment).length)
  let name := Text.trim namePart
  match name with
  | [] => problem .emptyFieldName column
  | c :: _ =>
    if c.isAnyDigit then problem .digitInFront column
    else if !name.isIdentifier then problem (.fieldName name) column
    else match rest with
      | [] => .ok ⟨name, type, none, line, column⟩
      | _ :: default =>
        (parseDefault type column (Text.trim default)).map fun d =>
          ⟨name, type, some d, line, column⟩

/-- The declarations of a line, each at the column after the comma before it. -/
def parseDeclarations (type : TypeExpr) (line : Nat) :
    (column : Nat) → List Text → Parsed (List FieldDecl)
  | _, [] => .ok []
  | column, segment :: segments =>
    match parseDeclaration type line column segment with
    | .error e => .error e
    | .ok f =>
      (parseDeclarations type line (column + segment.length + 1) segments).map (f :: ·)

def parseFields (number indent : Nat) (line : Text) : Parsed (List FieldDecl) :=
  if (line.takeWhile fun c => !c.isBlank) = "optional" then problem .optionalField indent
  else
    match splitType indent 0 line with
    | .error e => .error e
    | .ok (typeText, rest) =>
      match TypeExpr.parse typeText with
      | .error p => problem p indent
      | .ok type =>
        let column := indent + typeText.length
        if (Text.trimLeft rest).isEmpty then problem .noFieldName column
        else
          match splitDeclarations false rest with
          | none => problem .openQuote (column + rest.length)
          | some segments => parseDeclarations type number column segments

/-- The fields of a struct after further ones, whose names must be new. -/
def addFields (fields : List FieldDecl) : List FieldDecl → Parsed (List FieldDecl)
  | [] => .ok fields
  | f :: fs =>
    if fields.any fun g => g.name == f.name then problem (.duplicateField f.name) f.column
    else addFields (fields ++ [f]) fs

/-- How far a schema has been read, and what may come next. -/
inductive State
  | start
  | versioned (version : Text)
  | outside (version package : Text) (structs : List StructDecl)
  | inside (version package : Text) (structs : List StructDecl) (current : StructDecl)

/-- Reads one line that is not blank. -/
def State.step (state : State) (number indent : Nat) (line : Text) : Parsed State :=
  match state with
  | start => (parseVersion indent line).map versioned
  | versioned version => (parsePackage indent line).map fun package => outside version package []
  | outside version package structs =>
    (parseHeader (structs.map (·.name)) indent line).map fun header =>
      let struct : StructDecl := ⟨header.name, [], number⟩
      if header.closed then outside version package (structs ++ [struct])
      else inside version package structs struct
  | inside version package structs current =>
    if line = [CodePoint.closeBrace] then .ok (outside version package (structs ++ [current]))
    else
      match parseFields number indent line with
      | .error e => .error e
      | .ok fields =>
        (addFields current.fields fields).map fun fields =>
          inside version package structs { current with fields := fields }

def State.run (source : Text) : (number : Nat) → List Text → State → Except SchemaError State
  | _, [], state => .ok state
  | number, raw :: lines, state =>
    let line := Text.trimRight (stripComment false raw)
    let stripped := Text.trimLeft line
    if stripped.isEmpty then run source (number + 1) lines state
    else
      match state.step number (line.length - stripped.length) stripped with
      | .error e => .error ⟨e.problem, some source, number, e.column⟩
      | .ok state => run source (number + 1) lines state

def State.finish (source : Text) : State → Except SchemaError SchemaModule
  | start => .error ⟨.endOfText .version, some source, 0, 0⟩
  | versioned _ => .error ⟨.endOfText .package, some source, 0, 0⟩
  | outside version package structs => .ok ⟨version, package, structs, source⟩
  | inside _ _ _ current => .error ⟨.openStruct current.name, some source, current.line, 0⟩

/-- Reads a schema. -/
def parse (source text : Text) : Except SchemaError SchemaModule :=
  match State.start.run source 1 text.lines with
  | .error e => .error e
  | .ok state => state.finish source

end RecordWire.Schema
