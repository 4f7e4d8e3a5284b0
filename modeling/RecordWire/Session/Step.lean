import RecordWire.Session.Basic
import RecordWire.Value.Listing

/-!
The steps of a session and their answers. A step that fails has no effect, except that reading into a
record leaves it partly overwritten, that a stream keeps what was written to it or read from it, and
that a record which cannot be listed is kept nevertheless.
-/

namespace RecordWire

inductive Step
  | addSchema (source text : Text)
  | register (schemas : List (Text × Text))
  | loadFile (path : Text)
  | loadDirectory (path : Text)
  | renewFrom (path : Text)
  | names
  | lookup (name : Text)
  | get (name : Text)
  | describe (type : Text)
  | declare (term : RecordTerm)
  | make (type : Text) (values : List (Text × Term)) (var? : Option Text)
  | fromDict (type : Text) (data : Term) (var? : Option Text)
  | fromBytes (type : Text) (data : Bytes) (config? : Option Value) (var? : Option Text)
  | decode (type : Text) (source : Source) (config? : Option Value) (var? : Option Text)
  /-- The flag says whether the operation of the record itself is used, here and below. -/
  | decodeInto (var : Text) (own : Bool) (source : Source) (config? : Option Value)
  | encodeInto (value : Term) (own : Bool) (config? : Option Value)
  | set (var field : Text) (value : Term)
  | push (var field : Text) (value : Term)
  | toBytes (var : Text) (config? : Option Value)
  | encodedSize (var : Text) (config? : Option Value)
  | toDict (var : Text)
  | shown (var : Text)
  | hash (var : Text)
  | equal (a b : Term)
  | serialize (value : Term) (config? : Option Value)
  | deserialize (type : TypeTerm) (data : Bytes) (config? : Option Value) (var? : Option Text)
  | serializedSize (value : Term)
  | settings
  | streamWrite (value : Term)
  | streamSet (data? : Option Bytes) (position : Int)
  | streamRead (type : TypeTerm) (var? : Option Text)

/-- What a step answers; some answers may tell of an error besides. -/
inductive Answer
  | done
  | created (names : List Text)
  | names (names : List Text) (modules : List SchemaModule)
  | found (typeName? : Option Text)
  | got (typeName : Text)
  | described (type : RecordType)
  | record (v : Value)
  | decoded (result : Except WireError Value) (source : Source)
  | overwritten (record : Value) (error? : Option WireError) (source : Source)
  | encoded (output : Output)
  | bytes (bs : Bytes)
  | size (n : Nat)
  | value (v : Value)
  | text (t : Text)
  | equal (b : Bool)
  | settings (s : Settings)
  | written (result : Except WireError Nat) (stream : Bytes)
  | streamRead (result : Except WireError Value) (position : Nat)
  /-- What was done cannot be told. -/
  | failed (why : Fault)

/-- Whether a record type can be told with all its fields and their default values. -/
def RecordLayout.isDescribed (type : RecordType) : Bool := type.isSized && type.default.isListed

namespace Session

abbrev Result := Logged Failure (Session × Answer)

def ofExcept (x : Except Failure (Session × Answer)) : Result := Logged.ofExcept x

def telling (s : Session) (object : Nat) (answer : Value → Answer) : Answer :=
  match s.objects.view? object with
  | none => .failed .endless
  | some v => if v.isListed then answer v else .failed .unsupported

/-- A record that a step makes, kept if there is a variable for it. -/
def keeping (s : Session) (var? : Option Text) (v : Value) : Session × Answer :=
  let (s, v) := s.absorb v
  let s := s.keep var? v.object
  (s, s.telling v.object .record)

/-- The session with the registry after loading, and the names of the types created. -/
def loaded (s : Session) (result : Registry × List RecordType) : Session × Answer :=
  ({ s with registry := result.1 }, .created (result.2.map (·.typeName)))

def evalNamed (s : Session) (values : List (Text × Term)) : Except Failure (List (Text × Value)) :=
  collect (values.map fun (name, term) => (s.evalReferences term).map fun v => (name, v))

def wire {α : Type} (x : Except WireError α) : Except Failure α := x.mapError .wire

def describing (s : Session) (type : RecordType) : Answer :=
  let type := s.objects.renewType type
  if type.isDescribed then .described type else .failed .unsupported

def declare (s : Session) (term : RecordTerm) : Except Failure (Session × Answer) := do
  let type ← wire (term.declare s.declaredType? s.references s.nextOrigin)
  let (type, objects) := (Objects.absorbType type).run s.objects
  let s := { s with
    objects := objects, declared := (term.name, type) :: s.declared, nextOrigin := s.nextOrigin + 1 }
  return (s, s.describing type)

def decode (s : Session) (type : Text) (source : Source) (config? : Option Value)
    (var? : Option Text) : Except Failure (Session × Answer) := do
  let type ← s.type type
  let config ← s.configOr config?
  match type.readNew config source with
  | .ok v source =>
    let (s, w) := s.absorb v
    return (s.keep var? w.object, .decoded (.ok v) source)
  | .error e source => return (s, .decoded (.error e) source)

def decodeInto (s : Session) (var : Text) (own : Bool) (source : Source) (config? : Option Value) :
    Except Failure (Session × Answer) := do
  let object ← s.object var
  let c ← s.cell object
  let config ← s.configOr config?
  let head := c.head object
  if own && head.hides .readData then
    let error := WireError.fault .unsupported
    return (s, s.telling object fun v => .overwritten v (some error) source)
  let (fields, error?, source) := head.overwrite config c.fields source
  let (fields, objects) := (Objects.absorbAll fields).run s.objects
  let s := { s with objects := objects.put object { c with fields := fields } }
  return (s, s.telling object fun v => .overwritten v error? source)

def encodeInto (s : Session) (term : Term) (own : Bool) (config? : Option Value) :
    Except Failure (Session × Answer) := do
  let v ← s.eval term
  let config ← s.configOr config?
  if own && v.hides .writeData then return (s, .encoded (.fail (.fault .unsupported)))
  return (s, .encoded (v.encode config))

/-- Gives a value to a member of a record, whether a field or not. -/
def set (s : Session) (var name : Text) (term : Term) : Except Failure (Session × Answer) := do
  let object ← s.object var
  let c ← s.cell object
  let v ← s.evalReferences term
  let (s, v) := s.absorb v
  let s := s.put object (c.set name v)
  return (s, s.telling object .record)

def push (s : Session) (var name : Text) (term : Term) : Except Failure (Session × Answer) := do
  let object ← s.object var
  let c ← s.cell object
  match (c.member? name).filter Value.grows with
  | none => throw (.fault .noMember)
  | some old =>
    let item ← s.evalReferences term
    let (s, item) := s.absorb item
    let new ← wire (old.push item)
    let s := s.put object (c.set name new)
    return (s, s.telling object .record)

def toBytes (s : Session) (var : Text) (config? : Option Value) :
    Except Failure (Session × Answer) := do
  let v ← s.valueOf var
  let config ← s.configOr config?
  return (s, .bytes (← wire (v.toBytes config)))

def fromBytes (s : Session) (type : Text) (data : Bytes) (config? : Option Value)
    (var? : Option Text) : Except Failure (Session × Answer) := do
  let type ← s.type type
  let config ← s.configOr config?
  return s.keeping var? (← wire (type.fromBytes config data))

def streamSet (s : Session) (data? : Option Bytes) (position : Int) :
    Except Failure (Session × Answer) :=
  let data := data?.getD s.stream.data
  if position < 0 then .error (.fault .wrongParts)
  else .ok ({ s with stream := { data := data, pos := position.toNat } }, .done)

def streamRead (s : Session) (type : TypeTerm) (var? : Option Text) :
    Except Failure (Session × Answer) := do
  match ← s.resolve type with
  | .error e => return (s, .streamRead (.error e) s.stream.pos)
  | .ok type =>
    let (result, stream) := Service.read s.config type s.stream
    let s := { s with stream := stream }
    match result with
    | .ok v =>
      let (s, w) := s.absorb v
      return (s.keep var? w.object, .streamRead result stream.pos)
    | .error _ => return (s, .streamRead result stream.pos)

/-- Runs a step. -/
def run (s : Session) : Step → Result
  | .addSchema source text => s.loaded <$> s.registry.addSchema source text
  | .register schemas => s.loaded <$> s.registry.addSchemas schemas
  | .loadFile path => s.loaded <$> s.registry.loadFile s.files path
  | .loadDirectory path => s.loaded <$> s.registry.loadDirectory s.files path
  | .renewFrom path => do
    let (registry, _) ← ({ origin := s.nextOrigin } : Registry).loadDirectory s.files path
    return ({ s with registry := registry, nextOrigin := s.nextOrigin + 1 }, .done)
  | .names => pure (s, .names s.registry.names s.registry.modules)
  | .lookup name => pure (s, .found ((s.registry.find? name).map (·.typeName)))
  | .get name =>
    match s.registry.find? name with
    | some type => pure (s, .got type.typeName)
    | none => throw (.fault .noEntry)
  | .describe name =>
    match s.declaredType? name with
    | some type => pure (s, s.describing type)
    | none => throw (.fault .noEntry)
  | .declare term => ofExcept (s.declare term)
  | .make type values var? => ofExcept do
    let type ← s.type type
    let given ← s.evalNamed values
    return s.keeping var? (← wire (type.make given))
  | .fromDict type data var? => ofExcept do
    let type ← s.type type
    let data ← s.eval data
    return s.keeping var? (← wire (type.fromDict data))
  | .fromBytes type data config? var? => ofExcept (s.fromBytes type data config? var?)
  | .decode type source config? var? => ofExcept (s.decode type source config? var?)
  | .decodeInto var own source config? => ofExcept (s.decodeInto var own source config?)
  | .encodeInto value own config? => ofExcept (s.encodeInto value own config?)
  | .set var name value => ofExcept (s.set var name value)
  | .push var name value => ofExcept (s.push var name value)
  | .toBytes var config? => ofExcept (s.toBytes var config?)
  | .encodedSize var config? => ofExcept do
    let v ← s.valueOf var
    let config ← s.configOr config?
    return (s, .size (← wire (v.encodedSize config.encoding)))
  | .toDict var => ofExcept do
    match ← s.valueOf var with
    | .record head fields =>
      return (s, .value (← wire ((Layout.record head.type).toPlain (.record head fields))))
    | _ => throw (.fault .noMember)
  | .shown var => ofExcept do
    let v ← s.valueOf var
    if v.isShowable then return (s, .text v.shown) else throw (.fault .badText)
  | .hash var => ofExcept do
    let _ ← s.object var
    throw (.fault .unsupported)
  | .equal a b => ofExcept do
    let v ← s.eval a
    let w ← s.eval b
    return (s, .equal (v.equal w))
  | .serialize value config? => do
    let v ← Logged.ofExcept (s.eval value)
    let config ← Logged.ofExcept (s.configOr config?)
    let bs ← (Service.serialize config v).mapError .wire
    return (s, .bytes bs)
  | .deserialize type data config? var? => do
    let type ← Logged.ofExcept (s.resolve type)
    let config ← Logged.ofExcept (s.configOr config?)
    let type ← Logged.ofExcept (wire type)
    let v ← (Service.deserialize config type data).mapError .wire
    return s.keeping var? v
  | .serializedSize value => ofExcept do
    return (s, .size (← wire (Service.encodedSize s.config (← s.eval value))))
  | .settings => pure (s, .settings s.settings)
  | .streamWrite value => ofExcept do
    let v ← s.eval value
    let (stream, result) := Service.write s.config s.stream v
    return ({ s with stream := stream }, .written result stream.data)
  | .streamSet data? position => ofExcept (s.streamSet data? position)
  | .streamRead type var? => ofExcept (s.streamRead type var?)

end Session

end RecordWire
