import RecordWire.Config.Basic
import RecordWire.Config.Error
import RecordWire.Value.Compare

/-!
Settings: a configuration as it is given, whose values need not fit. Checking settings gives the
configuration that they mean. An assignment stores its value before the check, except for the byte
order, which is looked up first.
-/

namespace RecordWire

structure Settings where
  byteOrder : ByteOrder := .little
  sortMapKeys : Value := .bool true
  strict : Value := .bool false
  stringEncoding : Value := .text "utf-8"

/-- What an assignment can be about; a letter for the byte order can only be read. -/
inductive Setting
  | byteOrder | sortMapKeys | strict | stringEncoding | orderLetter
  deriving DecidableEq, Repr

namespace Setting

def name : Setting → Text
  | byteOrder => "byte_order"
  | sortMapKeys => "sort_map_keys"
  | strict => "strict"
  | stringEncoding => "string_encoding"
  | orderLetter => "struct_prefix"

def given : List Setting := [byteOrder, sortMapKeys, strict, stringEncoding]

def ofName? (t : Text) : Option Setting := (given ++ [orderLetter]).find? fun s => s.name == t

end Setting

/-- The byte order of a name, in any case. A byte order itself is given by its name. -/
def ByteOrder.ofValue (v : Value) : Except ConfigError ByteOrder :=
  match ofName? v.asText with
  | some order => .ok order
  | none => .error (.byteOrder v)

theorem ByteOrder.ofValue_name (order : ByteOrder) : ofValue (.text order.name) = .ok order := by
  cases order <;> rfl

/-- The encoding of a name, among those that are found by their names. -/
def Encoding.ofValueBy {ε : Type} (find : Text → Option ε) (v : Value) : Except ConfigError ε :=
  match v with
  | .atom (.text t) =>
    if t.hasSurrogate then .error (.fault .unencodable)
    else if t.contains 0 then .error (.fault .badText)
    else match find t with
      | some encoding => .ok encoding
      | none => .error (.encoding v)
  | v => .error (.encoding v)

def Encoding.ofValue (v : Value) : Except ConfigError Encoding := ofValueBy ofName? v

/-- The encoding of a name by what it does: one that is built in, or another one. -/
def TextCodec.ofValue (others : Text → Option TextCodec) (v : Value) :
    Except ConfigError TextCodec :=
  Encoding.ofValueBy (fun t => ((Encoding.ofName? t).map Encoding.codec).or (others t)) v

namespace Settings

section

variable {ε : Type} (find : Value → Except ConfigError ε)

/-- Whether keys are sorted, whether reading is strict, and the encoding, which is looked up by its
name, if all settings fit. -/
def meaningBy (s : Settings) : Except ConfigError (Bool × Bool × ε) :=
  match s.sortMapKeys, s.strict with
  | .atom (.bool sortMapKeys), .atom (.bool strict) =>
    (find s.stringEncoding).map fun encoding => (sortMapKeys, strict, encoding)
  | .atom (.bool _), _ => .error .strict
  | _, _ => .error .sortMapKeys

def checkedBy (s : Settings) : Except ConfigError Settings := (s.meaningBy find).map fun _ => s

def makeBy (given : List (Text × Value)) : Except ConfigError Settings :=
  let value (s : Setting) (default : Value) : Value := (given.lookup s.name).getD default
  match ByteOrder.ofValue (value .byteOrder (.text ByteOrder.little.name)) with
  | .error e => .error e
  | .ok order =>
    checkedBy find ⟨order, value .sortMapKeys (.bool true), value .strict (.bool false),
      value .stringEncoding (.text "utf-8")⟩

def isGiven (name : Text) : Bool := Setting.given.any fun s => s.name == name

/-- Settings with some given by name, and no others. The last value counts for a name given twice. -/
def ofNamedBy (given : List (Text × Value)) : Except ConfigError Settings :=
  if given.all fun g => isGiven g.1 then makeBy find given.reverse
  else .error (.fault .unsupported)

def textKeys? (entries : List (Value × Value)) : Option (List (Text × Value)) :=
  entries.mapM fun
    | (.atom (.text t), v) => some (t, v)
    | _ => none

/-- The settings in a dictionary, or the default ones for nothing. -/
def ofDictBy (v : Value) : Except ConfigError Settings :=
  match v with
  | .atom .none => makeBy find []
  | .dict entries =>
    match textKeys? entries with
    | none => .error (.fault .unsupported)
    | some given =>
      let unknown := (given.map (·.1)).filter fun name => !isGiven name
      if unknown.isEmpty then makeBy find given else .error (.unknownKeys (Text.sorted unknown))
  | _ => .error .notMapping

/-- The settings after an assignment, and what was wrong with it. -/
def setBy (s : Settings) (setting : Setting) (v : Value) : Settings × Option ConfigError :=
  let assigned (s : Settings) : Settings × Option ConfigError :=
    match s.meaningBy find with
    | .ok _ => (s, none)
    | .error e => (s, some e)
  match setting with
  | .byteOrder =>
    match ByteOrder.ofValue v with
    | .ok order => ({ s with byteOrder := order }, none)
    | .error e => (s, some e)
  | .sortMapKeys => assigned { s with sortMapKeys := v }
  | .strict => assigned { s with strict := v }
  | .stringEncoding => assigned { s with stringEncoding := v }
  | .orderLetter => (s, some (.fault .noMember))

/-- The configuration that settings mean, if all of them fit. -/
def checkBy [TextEncoding ε] (s : Settings) : Except ConfigError (ConfigOf ε) :=
  (s.meaningBy find).map fun (sortMapKeys, strict, encoding) =>
    ⟨s.byteOrder, sortMapKeys, strict, encoding⟩

def documentKey : Text := "sme"

def ofDocumentBy (v : Value) : Except ConfigError Settings :=
  match v with
  | .dict entries => ofDictBy find ((Value.lookupText documentKey entries).getD v)
  | v => ofDictBy find v

end

def check (s : Settings) : Except ConfigError Config := s.checkBy Encoding.ofValue

def ofNamed (given : List (Text × Value)) : Except ConfigError Settings :=
  ofNamedBy Encoding.ofValue given

def ofDict (v : Value) : Except ConfigError Settings := ofDictBy Encoding.ofValue v

def set (s : Settings) (setting : Setting) (v : Value) : Settings × Option ConfigError :=
  s.setBy Encoding.ofValue setting v

def ofDocument (v : Value) : Except ConfigError Settings := ofDocumentBy Encoding.ofValue v

def shown (s : Settings) : Text :=
  "CodecConfig(byte_order=" ++ s.byteOrder.name.quoted ++ ", sort_map_keys=" ++
    s.sortMapKeys.asText ++ ", strict=" ++ s.strict.asText ++ ", string_encoding=" ++
    s.stringEncoding.shown ++ ")"

end Settings

end RecordWire
