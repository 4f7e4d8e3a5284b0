import RecordWire.Codec.Error
import RecordWire.Schema.TypeExpr
import RecordWire.Text.Blank

/-!
What is wrong with a schema, and where. A problem is a cause; an error adds the source, the line and
the column, which its message shows as far as they are known.
-/

namespace RecordWire

/-- What a line of a schema may start with. -/
inductive Expected
  | version | package | struct | field
  deriving DecidableEq, Repr

def Expected.text : Expected → Text
  | version => "syntax version declaration"
  | package => "package declaration"
  | struct => "struct declaration"
  | field => "struct field declaration"

inductive SchemaProblem
  | listType (whole : Text)
  | mapType (whole : Text)
  | parametricType (head whole : Text)
  | typeName (whole : Text)
  | notVersionKeyword (got : Text)
  | noVersion
  | version (got : Text)
  | notPackageKeyword (got : Text)
  | packageName (got : Text)
  | notStructKeyword (got : Text)
  | noStructName
  | structName (got : Text)
  | noOpenBrace
  | textAfterBrace (got : Text)
  | duplicateStruct (name : Text)
  | duplicateField (name : Text)
  | optionalField
  | noFieldName
  | emptyFieldName
  | digitInFront
  | fieldName (got : Text)
  | closingBracket
  | openBracket
  | openQuote
  | noDefault
  | nullDefault
  | unquotedDefault
  | default (got : Text)
  | openStruct (name : Text)
  | endOfText (expected : Expected)
  | noDirectory (path : Text)
  | unreadableFile (reason : Text)
  | unknownType (ref : StructRef)
  | cycle (names : List Text)
  | reservedField (name : Text)
  | illegal (why : IllegalArgument)
  | structuredDefault (name : Text)
  | defaultOfType (got : Text)

namespace SchemaProblem

def message : SchemaProblem → Text
  | listType whole => "incorrect declaration of list: " ++ whole
  | mapType whole => "incorrect declaration of map: " ++ whole
  | parametricType head whole => "incorrect declaration of " ++ head ++ ": " ++ whole
  | typeName whole => "incorrect type name: " ++ whole
  | notVersionKeyword got => "expected: 'syntax' keyword, got: " ++ got
  | noVersion => "expected: syntax version, got: end of line"
  | version got => "incorrect syntax version specified: " ++ got
  | notPackageKeyword got => "expected 'package' keyword, got: " ++ got
  | packageName got => "incorrect format of package name: " ++ got
  | notStructKeyword got => "expected 'struct' keyword, got: " ++ got
  | noStructName => "expected struct name"
  | structName got => "incorrect name of struct: " ++ got
  | noOpenBrace => "expected opening curly brace"
  | textAfterBrace got => "unexpected text after opening curly brace: " ++ got
  | duplicateStruct name => "struct already exists: " ++ name
  | duplicateField name => "field with this name was already declared in this struct: " ++ name
  | optionalField => "optional fields are not supported"
  | noFieldName => "expected field name, but got: end of line"
  | emptyFieldName => "expected field name"
  | digitInFront => "field name can not start with a number"
  | fieldName got => "incorrect field name: " ++ got
  | closingBracket => "unexpected closing bracket"
  | openBracket => "expected closing bracket, but got: end of line"
  | openQuote => "expected closing quotes, but got: end of line"
  | noDefault => "expected default value declaration for value, but got: end of line"
  | nullDefault => "non-optional types cannot hold null as default value"
  | unquotedDefault => "expected quoted string default value"
  | default got => "incorrect default value: " ++ got
  | openStruct name => "unterminated struct: " ++ name
  | endOfText expected => "expected " ++ expected.text ++ ", but got: end of file"
  | noDirectory path => "schema directory does not exist: " ++ path
  | unreadableFile reason => "cannot read schema file: " ++ reason
  | unknownType ref => "unknown type: " ++ ref.text
  | cycle names => "recursive struct reference: " ++ Text.join " -> " names
  | reservedField name => "field name is reserved: " ++ name
  | illegal why => why.message
  | structuredDefault name => "default values are only supported for primitive fields: " ++ name
  | defaultOfType got => "incorrect data type for default value: " ++ got

def hasCause : SchemaProblem → Bool
  | unreadableFile _ | illegal _ | defaultOfType _ => true
  | _ => false

end SchemaProblem

structure SchemaError where
  problem : SchemaProblem
  source? : Option Text
  /-- Lines count from one; zero stands for no line. -/
  line : Nat
  column : Nat

namespace SchemaError

/-- A description with the place that it is about, as far as it is known. -/
def located (description source : Text) (line column : Text) (hasLine : Bool) : Text :=
  if hasLine then
    let place := line ++ ":" ++ column
    "syntax error at " ++ (if source.isEmpty then place else source ++ ":" ++ place) ++ " - " ++
      description
  else if source.isEmpty then description
  else source ++ ": " ++ description

def message (e : SchemaError) : Text :=
  located e.problem.message (e.source?.getD []) (Text.ofNat e.line) (Text.ofNat e.column) (e.line ≠ 0)

end SchemaError

end RecordWire
