import RecordWire.Schema.Declaration
import RecordWire.Schema.Error

/-!
The structs that a batch of schemas declares, by qualified name. No name is declared twice, and none
that is taken already.
-/

namespace RecordWire

/-- A struct with the schema that it stands in. -/
structure BatchStruct where
  module : SchemaModule
  struct : StructDecl

namespace BatchStruct

def name (d : BatchStruct) : Text := StructRef.join d.module.package d.struct.name

def problem (d : BatchStruct) (p : SchemaProblem) : SchemaError :=
  ⟨p, some d.module.source, d.struct.line, 0⟩

def problemAt (d : BatchStruct) (f : FieldDecl) (p : SchemaProblem) : SchemaError :=
  ⟨p, some d.module.source, f.line, f.column⟩

/-- The structs of schemas, in the order in which they stand there. -/
def ofModules (modules : List SchemaModule) : List BatchStruct :=
  modules.flatMap fun m => m.structs.map fun s => ⟨m, s⟩

/-- Adds structs to those declared before, unless a name is taken. -/
def addAll (taken : Text → Bool) : (declared : List BatchStruct) → List BatchStruct →
    Except SchemaError (List BatchStruct)
  | declared, [] => .ok declared
  | declared, d :: ds =>
    if taken d.name || declared.any fun e => e.name == d.name then
      .error (d.problem (.duplicateStruct d.name))
    else addAll taken (declared ++ [d]) ds

def ofBatch (taken : Text → Bool) (modules : List SchemaModule) :
    Except SchemaError (List BatchStruct) :=
  addAll taken [] (ofModules modules)

def refs (d : BatchStruct) : List (FieldDecl × StructRef) :=
  d.struct.fields.flatMap fun f => f.type.refs.map fun r => (f, r)

end BatchStruct

end RecordWire
