import RecordWire.Config.Settings
import RecordWire.Registry.Load
import RecordWire.Service.Basic
import RecordWire.Session.Objects
import RecordWire.Term.Record
import RecordWire.Wire.Raw

/-!
A session: a registry, types that were declared by hand, records kept in variables, and a stream, all
under one configuration. A type name is looked for among the declared types first. Variables stand for
objects, so one record may be kept in several variables and be part of several records.
-/

namespace RecordWire

structure Session where
  settings : Settings
  config : Config
  registry : Registry := { origin := 0 }
  /-- The declared types, with references in their default values. -/
  declared : List (Text × RecordType) := []
  objects : Objects := {}
  /-- The objects in variables. -/
  kept : List (Text × Nat) := []
  stream : ByteStream := { data := [], pos := 0 }
  files : FileTree := {}
  /-- What tells the next types from all before them. -/
  nextOrigin : Nat := 1

/-- A type by name, or any other value in its place. -/
inductive TypeTerm
  | named (name : Text)
  | value (term : Term)

namespace Session

def declaredType? (s : Session) (name : Text) : Option RecordType :=
  (s.declared.lookup name).or (s.registry.find? name)

def type (s : Session) (name : Text) : Except Failure RecordType :=
  match s.declaredType? name with
  | some type => .ok (s.objects.renewType type)
  | none => .error (.fault .noEntry)

def object (s : Session) (name : Text) : Except Failure Nat :=
  match s.kept.lookup name with
  | some object => .ok object
  | none => .error (.fault .noEntry)

def cell (s : Session) (object : Nat) : Except Failure Cell :=
  match s.objects.cells.lookup object with
  | some c => .ok c
  | none => .error (.fault .noEntry)

def view (s : Session) (object : Nat) : Except Failure Value :=
  match s.objects.view? object with
  | some v => .ok v
  | none => .error (.fault .endless)

/-- Variables as the views of their objects. -/
def views (s : Session) : Term.Scope := fun name =>
  match s.kept.lookup name with
  | none => .error .noEntry
  | some object =>
    match s.objects.view? object with
    | some v => .ok v
    | none => .error .endless

/-- Variables as references to their objects. -/
def references (s : Session) : Term.Scope := fun name =>
  match (s.kept.lookup name).bind fun object =>
      (s.objects.cells.lookup object).map fun c => Value.reference c.type object with
  | some v => .ok v
  | none => .error .noEntry

def eval (s : Session) (term : Term) : Except Failure Value :=
  (term.eval s.views).mapError .fault

def evalReferences (s : Session) (term : Term) : Except Failure Value :=
  (term.eval s.references).mapError .fault

def valueOf (s : Session) (name : Text) : Except Failure Value := (s.object name).bind s.view

def resolve (s : Session) : TypeTerm → Except Failure (Except WireError RecordType)
  | .named name => (s.type name).map .ok
  | .value term => (s.eval term).map fun v => .error (.notRecordType v)

/-- The configuration of a step of its own, or that of the session. -/
def configOr (s : Session) : Option Value → Except Failure Config
  | none => .ok s.config
  | some v => ((Settings.ofDict v).bind (·.check)).mapError .config

def absorb (s : Session) (v : Value) : Session × Value :=
  let (v, objects) := (Objects.absorb v).run s.objects
  ({ s with objects := objects }, v)

def keep (s : Session) (var? : Option Text) (object : Nat) : Session :=
  match var? with
  | none => s
  | some name => { s with kept := (name, object) :: s.kept }

def put (s : Session) (object : Nat) (c : Cell) : Session :=
  { s with objects := s.objects.put object c }

end Session

namespace Value

def object : Value → Nat
  | record head _ => head.object
  | _ => 0

def grows : Value → Bool
  | list _ | atom (.byteArray _) => true
  | _ => false

/-- The values after one more at the end: any value for a list, a byte for bytes that can change. -/
def push (v item : Value) : Except WireError Value :=
  match v with
  | list items => .ok (list (items ++ [item]))
  | atom (.byteArray bs) => (RawFormat.byte item).map fun b => atom (.byteArray (bs ++ [b]))
  | _ => .error (.fault .noMember)

end Value

end RecordWire
