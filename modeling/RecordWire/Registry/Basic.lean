import RecordWire.Log.Basic
import RecordWire.Registry.Build

/-!
The registry of record types that were built from schemas. Schemas are registered in batches: either
all structs of a batch are registered or none is. A batch may refer to types of earlier batches and,
in any order, to its own.
-/

namespace RecordWire

structure Registry where
  /-- What tells the types of this registry from those of others. -/
  origin : Nat
  types : TypeTable := []
  modules : List SchemaModule := []

namespace Registry

def find? (r : Registry) (name : Text) : Option RecordType := r.types.lookup name

def isRegistered (r : Registry) (name : Text) : Bool := (r.find? name).isSome

def names (r : Registry) : List Text := Text.sorted (r.types.map (·.1))

def build (r : Registry) (modules : List SchemaModule) : Build :=
  match BatchStruct.ofBatch r.isRegistered modules with
  | .error e => ⟨[], some (.schema e)⟩
  | .ok declared =>
    match BatchStruct.buildOrder r.isRegistered declared with
    | .error e => ⟨[], some (.schema e)⟩
    | .ok order => buildAll r.origin r.types declared [] order

/-- Takes over the types of a batch that was built, and returns these in the order in which they were
built. -/
def takeOver (modules : List SchemaModule) (build : Build) :
    EStateM RegistryError Registry (List RecordType) :=
  match build.error? with
  | some e => throw e
  | none => do
    modify fun r => { r with types := r.types ++ build.built }
    modify fun r => { r with modules := r.modules ++ modules }
    return build.built.map (·.2)

/-- Registers the types of a batch. The registry that there is afterwards is there after an error too. -/
def registering (modules : List SchemaModule) :
    EStateM RegistryError Registry (List RecordType) := do
  takeOver modules ((← get).build modules)

/-- The registry after a batch, whether it could be registered or not. -/
def after (r : Registry) (modules : List SchemaModule) : Registry :=
  match registering modules r with
  | .ok _ r' => r'
  | .error _ r' => r'

/-- The registry with the types of a batch, and these in the order in which they were built. -/
def register (r : Registry) (modules : List SchemaModule) :
    Except RegistryError (Registry × List RecordType) :=
  match registering modules r with
  | .ok created r' => .ok (r', created)
  | .error e _ => .error e

section

variable {r : Registry} {modules : List SchemaModule}

theorem registering_of_error {e : RegistryError} (h : (r.build modules).error? = some e) :
    registering modules r = .error e r := by
  have hrun : registering modules r = takeOver modules (r.build modules) r := rfl
  rw [hrun, takeOver, h]
  rfl

theorem registering_of_built (h : (r.build modules).error? = none) :
    registering modules r = .ok ((r.build modules).built.map (·.2))
      { r with types := r.types ++ (r.build modules).built, modules := r.modules ++ modules } := by
  have hrun : registering modules r = takeOver modules (r.build modules) r := rfl
  rw [hrun, takeOver, h]
  rfl

/-- A batch that cannot be registered leaves the registry as it was. -/
theorem eq_of_registering_error {r' : Registry} {e : RegistryError}
    (h : registering modules r = .error e r') : r' = r := by
  cases hb : (r.build modules).error? with
  | some e' =>
    rw [registering_of_error hb] at h
    cases h
    rfl
  | none =>
    rw [registering_of_built hb] at h
    cases h

theorem register_eq (r : Registry) (modules : List SchemaModule) : r.register modules =
    match (r.build modules).error? with
    | some e => .error e
    | none => .ok ({ r with
          types := r.types ++ (r.build modules).built, modules := r.modules ++ modules },
        (r.build modules).built.map (·.2)) := by
  unfold register
  cases h : (r.build modules).error? with
  | some e => rw [registering_of_error h]
  | none => rw [registering_of_built h]

theorem after_of_register_ok {r' : Registry} {created : List RecordType}
    (h : r.register modules = .ok (r', created)) : r.after modules = r' := by
  unfold register at h
  unfold after
  split at h <;> cases h
  rfl

theorem after_of_register_error {e : RegistryError} (h : r.register modules = .error e) :
    r.after modules = r := by
  unfold register at h
  unfold after
  split at h
  · cases h
  · rename_i hreg
    exact eq_of_registering_error hreg

end

def builtEntry (type : RecordType) : LogEntry :=
  ⟨.debug, .schema, "Built record type " ++ type.typeName ++ " with " ++
    Text.ofNat type.fields.length ++ " fields"⟩

def buildLog (r : Registry) (modules : List SchemaModule) : List LogEntry :=
  (r.build modules).built.map fun t => builtEntry t.2

def registerLogged (r : Registry) (modules : List SchemaModule) :
    Logged RegistryError (Registry × List RecordType) := do
  modify (· ++ r.buildLog modules)
  Logged.ofExcept (r.register modules)

end Registry

end RecordWire
