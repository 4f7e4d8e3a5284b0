import RecordWire.Codec.Collect
import RecordWire.Term.Basic

/-!
Layouts and record types as they are written down, with names for primitives and for record types
declared before. Resolving a term looks the names up and checks what a layout cannot be made of.
Default values are terms too, and may have variables.
-/

namespace RecordWire

abbrev TypeScope := Text → Option RecordType

inductive LayoutTerm
  /-- A primitive, or the colour. -/
  | named (name : Text)
  | list (element : LayoutTerm)
  | map (key value : LayoutTerm)
  | record (name : Text)

instance : Inhabited LayoutTerm := ⟨.named []⟩

namespace LayoutTerm

def colourName : Text := (Layout.rgb565 : Codec).name

def resolve (types : TypeScope) : LayoutTerm → Except WireError Codec
  | named name =>
    if name = colourName then .ok .rgb565
    else match PrimitiveName.ofText? name with
      | some p => .ok (.primitive p.primitive)
      | none => .error (.fault .noEntry)
  | list element => (element.resolve types).map .list
  | map key value =>
    match key.resolve types, value.resolve types with
    | .error e, _ => .error e
    | _, .error e => .error e
    | .ok (.primitive p), .ok v => .ok (.map p v)
    | .ok k, _ => .error (.illegal (.mapKey k.name))
  | record name =>
    match types name with
    | some type => .ok (.record type)
    | none => .error (.fault .noEntry)

end LayoutTerm

/-- What a name is bound to in a declaration: a new field with what it is given for its layout, or
something else. -/
inductive FieldKind
  | layout (term : LayoutTerm)
  /-- A record type stands for the layout of its records. -/
  | recordType (name : Text)
  /-- Any other value is refused. -/
  | value (term : Term)
  /-- The field that another name stands for already. -/
  | sameAs (name : Text)
  /-- An empty tuple, which is no field. -/
  | empty

structure FieldTerm where
  name : Text
  kind : FieldKind
  default? : Option Term

/-- A field that a declaration makes. It has no name before the type is made. -/
structure MadeField where
  /-- What tells the field from the others of the declaration. -/
  number : Nat
  layout : Codec
  default? : Option Value

/-- The names of a declaration, in the order in which they come up first, with the fields that they
stand for. -/
abbrev DeclarationBody := List (Text × Option MadeField)

namespace DeclarationBody

/-- Binds a name. A name that is bound already stays in its place. -/
def put (body : DeclarationBody) (name : Text) (made? : Option MadeField) : DeclarationBody :=
  if body.any fun m => m.1 == name then body.map fun m => if m.1 = name then (name, made?) else m
  else body ++ [(name, made?)]

def nameOf (body : DeclarationBody) (made : MadeField) : Text :=
  match body.reverse.find? fun m => m.2.any fun other => other.number == made.number with
  | some m => m.1
  | none => []

def fields (body : DeclarationBody) : List Field :=
  body.filterMap fun m => m.2.map fun made => ⟨body.nameOf made, made.layout, made.default?⟩

/-- The names that stand for fields. -/
def members (body : DeclarationBody) : List Text := (body.filter (·.2.isSome)).map (·.1)

end DeclarationBody

namespace FieldTerm

variable (types : TypeScope) (scope : Term.Scope)

def make (layout : Except WireError Codec) (number : Nat) (default? : Option Term) :
    Except WireError (Option MadeField) :=
  match layout, default? with
  | .error e, _ => .error e
  | .ok layout, none => .ok (some ⟨number, layout, none⟩)
  | .ok layout, some term =>
    match term.eval scope with
    | .error why => .error (.fault why)
    | .ok v => .ok (some ⟨number, layout, some v⟩)

def resolve (body : DeclarationBody) (number : Nat) (f : FieldTerm) :
    Except WireError (Option MadeField) :=
  match f.kind with
  | .layout term => make scope (term.resolve types) number f.default?
  | .recordType name => make scope ((LayoutTerm.record name).resolve types) number f.default?
  | .value term =>
    match term.eval scope with
    | .error why => .error (.fault why)
    | .ok v => .error (.illegal (.notLayout v))
  | .sameAs name =>
    match body.lookup name with
    | some made? => .ok made?
    | none => .error (.fault .noEntry)
  | .empty => .ok none

/-- A body with more names. What tells a new field from the others is how many names follow. -/
def bindAll : DeclarationBody → List FieldTerm → Except WireError DeclarationBody
  | body, [] => .ok body
  | body, f :: fs =>
    match f.resolve types scope body fs.length with
    | .error e => .error e
    | .ok made? => bindAll (body.put f.name made?) fs

def isOwn (f : FieldTerm) : Bool :=
  match f.kind with
  | .layout _ | .recordType _ | .value _ => true
  | .sameAs _ | .empty => false

end FieldTerm

/-- A record type as it is written down. -/
structure RecordTerm where
  name : Text
  base? : Option Text
  typeName? : Option Text
  fields : List FieldTerm

namespace RecordTerm

/-- Whether every name of the declaration is bound to a field of its own. -/
def isPlain (t : RecordTerm) : Bool := t.fields.all (·.isOwn)

def body (types : TypeScope) (scope : Term.Scope) (t : RecordTerm) :
    Except WireError DeclarationBody :=
  FieldTerm.bindAll types scope [] t.fields

def ownFields (types : TypeScope) (scope : Term.Scope) (t : RecordTerm) :
    Except WireError (List Field) :=
  (t.body types scope).map (·.fields)

/-- A type with fields of its own after those of its base. None of its names may be the name of one of
these. A declaration that binds the name under which the fields of a type are kept has none of the
base. -/
def extend (origin : Nat) (t : RecordTerm) (base? : Option RecordType) (body : DeclarationBody) :
    Except WireError RecordType :=
  match RecordLayout.refusal? t.name body.members [] with
  | some why => .error (.fault why)
  | none =>
    if base?.any fun b => b.fieldNames.contains Operation.extensionMember then
      .error (.fault .unsupported)
    else if body.members.contains Operation.fieldsMember then .error (.fault .unsupported)
    else
      let inherited :=
        if body.any fun m => m.1 == Operation.fieldsMember then []
        else (base?.map (·.fields)).getD []
      match body.members.find? fun name => inherited.any fun g => g.name == name with
      | some name => .error (.illegal (.fieldOfBase name t.name))
      | none => .ok {
          id := ⟨origin, t.name⟩
          className := t.name
          typeName := t.typeName?.getD t.name
          bases := (base?.map fun b => b.id :: b.bases).getD []
          fields := inherited ++ body.fields }

/-- The record type that is declared, which comes from the place given. -/
def declare (types : TypeScope) (scope : Term.Scope) (origin : Nat) (t : RecordTerm) :
    Except WireError RecordType :=
  match t.body types scope with
  | .error e => .error e
  | .ok body =>
    match t.base? with
    | none => t.extend origin none body
    | some name =>
      match types name with
      | none => .error (.fault .noEntry)
      | some base => t.extend origin (some base) body

/-- Record types declared one after the other, each seeing those before it. -/
def declareAll : (declared : List (Text × RecordType)) → List RecordTerm →
    Except WireError (List (Text × RecordType))
  | declared, [] => .ok declared
  | declared, t :: ts =>
    match t.declare (fun name => declared.lookup name) .empty (declared.length + 1) with
    | .error e => .error e
    | .ok type => declareAll ((t.name, type) :: declared) ts

end RecordTerm

end RecordWire
