import RecordWire.Layout.Primitive

/-!
Type expressions of the schema language: a primitive, a list, a map, or a struct by its name, with
the package in front if it is from another one.
-/

namespace RecordWire

inductive TypeExpr
  | primitive (name : PrimitiveName)
  | list (element : TypeExpr)
  | map (key value : TypeExpr)
  | struct (name : Text) (package? : Option Text)
  deriving DecidableEq

/-- A reference to a struct. -/
structure StructRef where
  name : Text
  package? : Option Text
  deriving DecidableEq

namespace StructRef

def join (package name : Text) : Text := package ++ "." ++ name

def text (r : StructRef) : Text :=
  match r.package? with
  | some package => join package r.name
  | none => r.name

/-- The qualified name, in a package of its own if the reference names none. -/
def qualified (r : StructRef) (package : Text) : Text := join (r.package?.getD package) r.name

end StructRef

namespace TypeExpr

def text : TypeExpr → Text
  | primitive name => name.text
  | list element => "list[" ++ element.text ++ "]"
  | map key value => "map[" ++ key.text ++ ", " ++ value.text ++ "]"
  | struct name package? => StructRef.text ⟨name, package?⟩

def refs : TypeExpr → List StructRef
  | primitive _ => []
  | list element => element.refs
  | map key value => key.refs ++ value.refs
  | struct name package? => [⟨name, package?⟩]

end TypeExpr

end RecordWire
