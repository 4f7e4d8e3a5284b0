import RecordWire.Codec.Plain
import RecordWire.Registry.Order

/-!
Record types from the structs of a batch. A default value is only possible for a primitive field; it
is read from its text and has to be one that the field can write.
-/

namespace RecordWire

/-- The layout that a type expression in a package means. -/
def TypeExpr.layout (types : Text → Option RecordType) (package : Text) :
    TypeExpr → Except WireError Codec
  | primitive name => .ok (.primitive name.primitive)
  | list element => (element.layout types package).map .list
  | map key value =>
    match key.layout types package, value.layout types package with
    | .error e, _ => .error e
    | _, .error e => .error e
    | .ok (.primitive p), .ok v => .ok (.map p v)
    | .ok k, _ => .error (.illegal (.mapKey k.name))
  | struct name package? =>
    match types (StructRef.qualified ⟨name, package?⟩ package) with
    | some type => .ok (.record type)
    | none => .error (.fault .noEntry)

/-- What stops a batch of schemas. -/
inductive RegistryError
  | schema (e : SchemaError)
  /-- A type was looked up that is neither registered nor built. -/
  | missing
  /-- No type could be made of a struct. -/
  | fault (why : Fault)

namespace BatchStruct

/-- Names that a field cannot have, since every record has members of these names. -/
def reservedNames : List Text :=
  ("_abc_impl" : Text) :: Operation.fieldsMember :: Operation.typeNameMember ::
    Operation.own.map Operation.name

/-- The default value that a text means for a primitive field, if the field can write it. -/
def defaultValue? (p : Primitive) (text : Text) : Option Value :=
  match p.fromPlain (.text text) with
  | .error _ => none
  | .ok v =>
    match (p.write {} v).error? with
    | none => some v
    | some _ => none

def fieldDefault (d : BatchStruct) (f : FieldDecl) : Except SchemaError (Option Value) :=
  match f.default? with
  | none => .ok none
  | some text =>
    match f.type with
    | .primitive name =>
      match defaultValue? name.primitive text with
      | some v => .ok (some v)
      | none => .error (d.problemAt f (.defaultOfType text))
    | _ => .error (d.problemAt f (.structuredDefault f.name))

def buildField (types : Text → Option RecordType) (d : BatchStruct) (f : FieldDecl) :
    Except RegistryError Field :=
  if reservedNames.contains f.name then .error (.schema (d.problemAt f (.reservedField f.name)))
  else
    match f.type.layout types d.module.package with
    | .error (.illegal why) => .error (.schema (d.problemAt f (.illegal why)))
    | .error _ => .error .missing
    | .ok layout =>
      match d.fieldDefault f with
      | .error e => .error (.schema e)
      | .ok default? => .ok ⟨f.name, layout, default?⟩

def description (d : BatchStruct) : Text :=
  "Record type " ++ d.name ++ " from " ++ d.module.source ++ "."

/-- Why no type can be made of a struct, whatever its fields are built to. -/
def refusal? (d : BatchStruct) : Option Fault :=
  RecordLayout.refusal? d.struct.name (d.struct.fields.map (·.name)) d.description

/-- The type of a struct, for the registry that the number stands for. -/
def build (origin : Nat) (types : Text → Option RecordType) (d : BatchStruct) :
    Except RegistryError RecordType :=
  match collect (d.struct.fields.map (d.buildField types)) with
  | .error e => .error e
  | .ok fields =>
    match d.refusal? with
    | some why => .error (.fault why)
    | none => .ok ⟨⟨origin, d.name⟩, d.struct.name, d.name, [], fields⟩

end BatchStruct

/-- Record types by qualified name. -/
abbrev TypeTable := List (Text × RecordType)

/-- The types of a batch that were built, and what stopped it. -/
structure Build where
  built : TypeTable
  error? : Option RegistryError

/-- Builds structs in order, each from the registered types and those built before. -/
def buildAll (origin : Nat) (known : TypeTable) (declared : List BatchStruct) :
    (built : TypeTable) → List Text → Build
  | built, [] => ⟨built, none⟩
  | built, name :: names =>
    match BatchStruct.find? declared name with
    | none => ⟨built, some .missing⟩
    | some d =>
      let types (n : Text) : Option RecordType := (built.lookup n).or (known.lookup n)
      match d.build origin types with
      | .error e => ⟨built, some e⟩
      | .ok type => buildAll origin known declared (built ++ [(name, type)]) names

end RecordWire
