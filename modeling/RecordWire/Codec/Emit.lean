import RecordWire.Codec.Write
import RecordWire.Wire.Writer

/-!
Writing values to a sink. Each chunk is handed to the sink as soon as it is there, before it is known
whether the rest of the value can be written, and a sink that fails ends the writing.
-/

namespace RecordWire

variable {ε σ : Type} [TextEncoding ε] (sink : ByteSink σ)

namespace ByteSink

def putExactSingle (order : ByteOrder) (v : Value) (x : Binary64) (same : Binary64 → Bool) :
    EStateM WireError σ Unit :=
  match x.toSingle? with
  | none => throw (.invalid (.tooLargeForSingle v))
  | some bits =>
    let y := Binary64.ofSingle bits
    if x.isNaN || same y then sink.putSingle order v
    else throw (.invalid (.inexactSingle v y))

/-- An integer that single precision holds exactly, by the number of double precision nearest to it, if
there is one. -/
def putWholeSingle (order : ByteOrder) (n : Int) : Option Binary64 → EStateM WireError σ Unit
  | none => throw (.fault .tooLarge)
  | some x => sink.putExactSingle order (.int n) x fun y => y.equalInt n

end ByteSink

def Primitive.emit (config : ConfigOf ε) : Primitive → Value → EStateM WireError σ Unit
  | int kind, v =>
    match v.toInt? with
    | none => throw (.invalid (.notInteger kind v.kind))
    | some n =>
      if kind.holds n then sink.putInt config.byteOrder kind v
      else throw (.invalid (.outOfRange kind n))
  | float, v =>
    match v with
    | .atom (.float x _) => sink.putExactSingle config.byteOrder v x x.equal
    | .atom (.int n) => sink.putWholeSingle config.byteOrder n (Binary64.ofInt? n)
    | _ => throw (.invalid (.notNumber float v.kind))
  | double, v =>
    match v with
    | .atom (.float _ _) | .atom (.int _) => sink.putDouble config.byteOrder v
    | _ => throw (.invalid (.notNumber double v.kind))
  | bool, v =>
    match v.toInt? with
    | none => throw (.invalid (.notBool v.kind))
    | some n => sink.putBool (n ≠ 0)
  | char, v =>
    match v with
    | .atom (.text [c]) =>
      if c.val < 0x100 then sink.putInt config.byteOrder .uint8 (.int c.val)
      else throw (.invalid (.notChar v))
    | _ => throw (.invalid (.notChar v))
  | string, v =>
    match stringBytes config.encoding v with
    | .error e => throw e
    | .ok bs => do
      sink.putCount config.byteOrder bs.length
      sink bs

def emitColour (order : ByteOrder) (v : Value) : EStateM WireError σ Unit :=
  match v.parts? with
  | none => throw (.fault .unsupported)
  | some [r, g, b] =>
    match r.toInt?, g.toInt?, b.toInt? with
    | some r, some g, some b => sink.putInt order .uint16 (.int (colourWord r g b))
    | _, _, _ => throw (.fault .unsupported)
  | some _ => throw (.fault .wrongParts)

/-- Writes a map whose entries are given by their keys and how they are written. -/
def emitEntries (config : ConfigOf ε) (entries : List (Value × EStateM WireError σ Unit)) :
    EStateM WireError σ Unit :=
  match arrangeEntries config entries with
  | none => throw (.fault .unsupported)
  | some entries => do
    sink.putCount config.byteOrder entries.length
    ByteSink.inTurn (entries.map (·.2))

/-- Writes a value with a layout to a sink. -/
def Layout.emit (config : ConfigOf ε) (codec : Codec) (v : Value) : EStateM WireError σ Unit :=
  match codec with
  | .primitive p => p.emit sink config v
  | .rgb565 => emitColour sink config.byteOrder v
  | .list element =>
    match _h : v.items (Layout.list element).name with
    | .error e => throw e
    | .ok items => do
      sink.putCount config.byteOrder items.length
      ByteSink.inTurn (items.attach.map fun ⟨item, _⟩ => element.emit config item)
  | .map key value =>
    match _h : v.pairs with
    | .error e => throw e
    | .ok pairs =>
      emitEntries sink config (pairs.attach.map fun ⟨e, _⟩ =>
        (e.1, do
          key.emit sink config e.1
          value.emit config e.2))
  | .record type =>
    match v with
    | .record head fields =>
      if head.type.isKindOf type then
        if head.hides .writeData || head.hides .fields then throw (.fault .unsupported)
        else
          ByteSink.inTurn ((head.type.fields.zip fields.attach).map fun (field, ⟨v, _⟩) =>
            field.layout.emit config v)
      else throw (.invalid (.notRecord type.typeName head.type.className))
    | v => throw (.invalid (.notRecord type.typeName v.kind))
termination_by (v.depth, sizeOf codec)
decreasing_by
  · rename_i hi
    have := Value.depth_of_mem_items _h hi
    simp only [Prod.lex_def, Layout.list.sizeOf_spec]
    omega
  · rename_i he
    have := (Value.depth_of_mem_pairs _h he).2
    simp only [Prod.lex_def, Layout.map.sizeOf_spec]
    omega
  · rename_i hv
    have := Value.depth_le_depths hv
    simp only [Prod.lex_def, Value.depth]
    omega

section

variable (config : ConfigOf ε)

theorem Layout.emit_list (element : Codec) (v : Value) :
    Layout.emit sink config (.list element) v =
      (match v.items (Layout.list element).name with
      | .error e => throw e
      | .ok items => do
        sink.putCount config.byteOrder items.length
        ByteSink.inTurn (items.map (element.emit sink config))) := by
  rw [Layout.emit]
  split <;> simp_all

theorem Layout.emit_map (key : Primitive) (value : Codec) (v : Value) :
    Layout.emit sink config (.map key value) v =
      match v.pairs with
      | .error e => throw e
      | .ok pairs =>
        emitEntries sink config (pairs.map fun e =>
          (e.1, do
            key.emit sink config e.1
            value.emit sink config e.2)) := by
  rw [Layout.emit]
  split <;> simp_all [List.map_attach_eq_pmap]

theorem Layout.emit_record (type : RecordType) (head : RecordHead Value) (values : List Value) :
    Layout.emit sink config (.record type) (.record head values) =
      if head.type.isKindOf type then
        if head.hides .writeData || head.hides .fields then throw (.fault .unsupported)
        else ByteSink.inTurn
          ((head.type.fields.zip values).map fun p => p.1.layout.emit sink config p.2)
      else throw (.invalid (.notRecord type.typeName head.type.className)) := by
  rw [Layout.emit, ← zip_attach fun (field : Field) v => field.layout.emit sink config v]

end

end RecordWire
