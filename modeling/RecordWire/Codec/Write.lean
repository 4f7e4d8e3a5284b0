import RecordWire.Codec.Pairs
import RecordWire.Sorting.Basic
import RecordWire.Wire.Output

/-!
Writing values. Scalars are their bytes alone; strings, lists and maps have their length or count in
front; the fields of a record follow each other. Map entries are written in the order of their keys
if the configuration says so. A record is written as the type it has itself, which may extend the
type of its field, and by its own operations, unless they are hidden.
-/

namespace RecordWire

variable {ε : Type} [TextEncoding ε]

namespace Output

/-- A number that single precision holds exactly. -/
def exactSingle (order : ByteOrder) (v : Value) (x : Binary64) (same : Binary64 → Bool) : Output :=
  match x.toSingle? with
  | none => invalid (.tooLargeForSingle v)
  | some bits =>
    let y := Binary64.ofSingle bits
    if x.isNaN || same y then chunk (singleBytes order bits) else invalid (.inexactSingle v y)

def lengthPrefixed (order : ByteOrder) (bs : Bytes) : Output := count order bs.length ++ chunk bs

end Output

namespace Primitive

def stringBytes (encoding : ε) : Value → Except WireError Bytes
  | .atom (.text t) => (TextEncoding.encode encoding t).mapError .fault
  | .atom (.bytes bs) => .ok bs
  | .atom (.byteArray bs) => .ok bs
  | v => .error (.invalid (.notString v.kind))

def write (config : ConfigOf ε) : Primitive → Value → Output
  | int kind, v =>
    match v.toInt? with
    | none => .invalid (.notInteger kind v.kind)
    | some n =>
      if kind.holds n then .chunk (Output.intBytes config.byteOrder kind n)
      else .invalid (.outOfRange kind n)
  | float, v =>
    match v with
    | .atom (.float x _) => Output.exactSingle config.byteOrder v x x.equal
    | .atom (.int n) =>
      match Binary64.ofInt? n with
      | none => .fail (.fault .tooLarge)
      | some x => Output.exactSingle config.byteOrder v x fun y => y.equalInt n
    | _ => .invalid (.notNumber float v.kind)
  | double, v =>
    match v with
    | .atom (.float _ _) | .atom (.int _) => Output.rawDouble config.byteOrder v
    | _ => .invalid (.notNumber double v.kind)
  | bool, v =>
    match v.toInt? with
    | none => .invalid (.notBool v.kind)
    | some n => .chunk [if n = 0 then 0 else 1]
  | char, v =>
    match v with
    | .atom (.text [c]) => if c.val < 0x100 then .chunk [UInt8.ofNat c.val] else .invalid (.notChar v)
    | _ => .invalid (.notChar v)
  | string, v =>
    match stringBytes config.encoding v with
    | .ok bs => .lengthPrefixed config.byteOrder bs
    | .error e => .fail e

end Primitive

def disjunction : Int → Int → Int
  | .ofNat m, .ofNat n => .ofNat (m ||| n)
  | .ofNat m, .negSucc n => .negSucc (n - (n &&& m))
  | .negSucc m, .ofNat n => .negSucc (m - (m &&& n))
  | .negSucc m, .negSucc n => .negSucc (m &&& n)

/-- The word of a colour: five bits, six and five, if none of the three is too large. -/
def colourWord (r g b : Int) : Int := disjunction (disjunction (r * 2 ^ 11) (g * 2 ^ 5)) b

def writeColour (order : ByteOrder) (v : Value) : Output :=
  match v.parts? with
  | none => .fail (.fault .unsupported)
  | some [r, g, b] =>
    match r.toInt?, g.toInt?, b.toInt? with
    | some r, some g, some b => Output.rawInt order .uint16 (.int (colourWord r g b))
    | _, _, _ => .fail (.fault .unsupported)
  | some _ => .fail (.fault .wrongParts)

/-- Entries in the order in which they are written: that of their keys, if keys are sorted. -/
def arrangeEntries {α : Type} (config : ConfigOf ε) (entries : List (Value × α)) :
    Option (List (Value × α)) :=
  if config.sortMapKeys then sort? (fun e f => e.1.before? f.1) entries else some entries

/-- Writes a map whose entries are given by their keys and what they write. -/
def writeEntries (config : ConfigOf ε) (entries : List (Value × Output)) : Output :=
  match arrangeEntries config entries with
  | none => .fail (.fault .unsupported)
  | some entries =>
    Output.count config.byteOrder entries.length ++ .concat (entries.map (·.2))

/-- Writes a value with a layout. -/
def Layout.write (config : ConfigOf ε) (codec : Codec) (v : Value) : Output :=
  match codec with
  | .primitive p => p.write config v
  | .rgb565 => writeColour config.byteOrder v
  | .list element =>
    match _h : v.items (Layout.list element).name with
    | .error e => .fail e
    | .ok items =>
      Output.count config.byteOrder items.length ++
        .concat (items.attach.map fun ⟨item, _⟩ => element.write config item)
  | .map key value =>
    match _h : v.pairs with
    | .error e => .fail e
    | .ok pairs =>
      writeEntries config (pairs.attach.map fun ⟨e, _⟩ =>
        (e.1, key.write config e.1 ++ value.write config e.2))
  | .record type =>
    match v with
    | .record head fields =>
      if head.type.isKindOf type then
        if head.hides .writeData || head.hides .fields then .fail (.fault .unsupported)
        else
          .concat ((head.type.fields.zip fields.attach).map fun (field, ⟨v, _⟩) =>
            field.layout.write config v)
      else .invalid (.notRecord type.typeName head.type.className)
    | v => .invalid (.notRecord type.typeName v.kind)
termination_by (v.depth, sizeOf codec)
decreasing_by
  · rename_i hi
    have := Value.depth_of_mem_items _h hi
    simp only [Prod.lex_def, Layout.list.sizeOf_spec]
    omega
  · rename_i he
    have := (Value.depth_of_mem_pairs _h he).2
    simp only [Prod.lex_def, Layout.map.sizeOf_spec]
    omega
  · rename_i hv
    have := Value.depth_le_depths hv
    simp only [Prod.lex_def, Value.depth]
    omega

section

variable (config : ConfigOf ε)

@[simp] theorem Layout.write_primitive (p : Primitive) (v : Value) :
    Layout.write config (.primitive p) v = p.write config v := by
  rw [Layout.write]

@[simp] theorem Layout.write_rgb565 (v : Value) :
    Layout.write config .rgb565 v = writeColour config.byteOrder v := by
  rw [Layout.write]

theorem Layout.write_list (element : Codec) (v : Value) :
    Layout.write config (.list element) v =
      match v.items (Layout.list element).name with
      | .error e => .fail e
      | .ok items =>
        Output.count config.byteOrder items.length ++
          .concat (items.map (element.write config)) := by
  rw [Layout.write]
  split <;> simp_all

theorem Layout.write_map (key : Primitive) (value : Codec) (v : Value) :
    Layout.write config (.map key value) v =
      match v.pairs with
      | .error e => .fail e
      | .ok pairs =>
        writeEntries config (pairs.map fun e =>
          (e.1, key.write config e.1 ++ value.write config e.2)) := by
  rw [Layout.write]
  split <;> simp_all [List.map_attach_eq_pmap]

def writeFields (fields : List Field) (values : List Value) : Output :=
  .concat ((fields.zip values).map fun p => p.1.layout.write config p.2)

theorem zip_attach {α β γ : Type} (f : α → β → γ) (xs : List α) (ys : List β) :
    ((xs.zip ys.attach).map fun p => f p.1 p.2.val) = (xs.zip ys).map fun p => f p.1 p.2 := by
  have h : xs.zip ys = (xs.zip ys.attach).map (Prod.map id Subtype.val) := by
    rw [← List.zip_map_right, List.attach_map_subtype_val]
  rw [h, List.map_map]
  rfl

theorem Layout.write_record (type : RecordType) (head : RecordHead Value) (values : List Value) :
    Layout.write config (.record type) (.record head values) =
      if head.type.isKindOf type then
        if head.hides .writeData || head.hides .fields then .fail (.fault .unsupported)
        else writeFields config head.type.fields values
      else .invalid (.notRecord type.typeName head.type.className) := by
  rw [Layout.write, writeFields, ← zip_attach fun (field : Field) v => field.layout.write config v]

end

end RecordWire
