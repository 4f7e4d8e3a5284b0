import RecordWire.Schema.TypeExpr

/-!
What a schema declares: one package with structs, each with its fields in order. Declarations keep
where they stand, and a field keeps the text of its default value unread.
-/

namespace RecordWire

structure FieldDecl where
  name : Text
  type : TypeExpr
  default? : Option Text
  line : Nat
  column : Nat
  deriving DecidableEq

structure StructDecl where
  name : Text
  fields : List FieldDecl
  line : Nat
  deriving DecidableEq

def StructDecl.field? (s : StructDecl) (name : Text) : Option FieldDecl :=
  s.fields.find? fun f => f.name == name

structure SchemaModule where
  version : Text
  package : Text
  structs : List StructDecl
  source : Text
  deriving DecidableEq

namespace SchemaModule

def struct? (m : SchemaModule) (name : Text) : Option StructDecl :=
  m.structs.find? fun s => s.name == name

def inlineSource : Text := "<string>"

end SchemaModule

end RecordWire
