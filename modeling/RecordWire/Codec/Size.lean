import RecordWire.Codec.Write

/-!
The size of an encoding without writing it. Scalars have the size of their kind whatever the value
is; everything else is asked for its parts.
-/

namespace RecordWire

variable {ε : Type} [TextEncoding ε]

def totalSize (sizes : List (Except WireError Nat)) : Except WireError Nat :=
  (collect sizes).map (List.foldr (· + ·) 0)

def addSizes (a b : Except WireError Nat) : Except WireError Nat :=
  match a with
  | .error e => .error e
  | .ok m => b.map (m + ·)

def Primitive.encodedSize (encoding : ε) (p : Primitive) (v : Value) :
    Except WireError Nat :=
  match p with
  | string => (stringBytes encoding v).map fun bs => countSize + bs.length
  | p => .ok p.minSize

/-- The number of bytes that writing a value takes. -/
def Layout.encodedSize (encoding : ε) (codec : Codec) (v : Value) :
    Except WireError Nat :=
  match codec with
  | .primitive p => p.encodedSize encoding v
  | .rgb565 => .ok 2
  | .list element =>
    match _h : v.parts? with
    | none => .error (.fault .unsupported)
    | some parts =>
      (totalSize (parts.attach.map fun ⟨part, _⟩ => element.encodedSize encoding part)).map
        (Primitive.countSize + ·)
  | .map key value =>
    match _h : v.pairs with
    | .error e => .error e
    | .ok pairs =>
      (totalSize (pairs.attach.map fun ⟨e, _⟩ =>
        addSizes (key.encodedSize encoding e.1) (value.encodedSize encoding e.2))).map
          (Primitive.countSize + ·)
  | .record _ =>
    match v with
    | .record head fields =>
      if head.hides .encodedSize then .error (.fault .unsupported)
      else
        head.throughFields 0
          (totalSize ((head.type.fields.zip fields.attach).map fun (field, ⟨v, _⟩) =>
            field.layout.encodedSize encoding v))
    | _ => .error (.fault .noMember)
termination_by (v.depth, sizeOf codec)
decreasing_by
  · rename_i hp
    have := Value.depth_of_mem_parts _h hp
    simp only [Prod.lex_def, Layout.list.sizeOf_spec]
    omega
  · rename_i he
    have := (Value.depth_of_mem_pairs _h he).2
    simp only [Prod.lex_def, Layout.map.sizeOf_spec]
    omega
  · rename_i hv
    have := Value.depth_le_depths hv
    simp only [Prod.lex_def, Value.depth]
    omega

section

variable (encoding : ε)

@[simp] theorem Layout.encodedSize_primitive (p : Primitive) (v : Value) :
    Layout.encodedSize encoding (.primitive p) v = p.encodedSize encoding v := by
  rw [Layout.encodedSize]

@[simp] theorem Layout.encodedSize_rgb565 (v : Value) :
    Layout.encodedSize encoding .rgb565 v = .ok 2 := by
  rw [Layout.encodedSize]

theorem Layout.encodedSize_list (element : Codec) (v : Value) :
    Layout.encodedSize encoding (.list element) v =
      match v.parts? with
      | none => .error (.fault .unsupported)
      | some parts =>
        (totalSize (parts.map (element.encodedSize encoding))).map (Primitive.countSize + ·) := by
  rw [Layout.encodedSize]
  split <;> simp_all

theorem Layout.encodedSize_map (key : Primitive) (value : Codec) (v : Value) :
    Layout.encodedSize encoding (.map key value) v =
      match v.pairs with
      | .error e => .error e
      | .ok pairs =>
        (totalSize (pairs.map fun e =>
          addSizes (key.encodedSize encoding e.1) (value.encodedSize encoding e.2))).map
            (Primitive.countSize + ·) := by
  rw [Layout.encodedSize]
  split <;> simp_all [List.map_attach_eq_pmap]

def sizeOfFields (fields : List Field) (values : List Value) : Except WireError Nat :=
  totalSize ((fields.zip values).map fun p => p.1.layout.encodedSize encoding p.2)

theorem Layout.encodedSize_record (type : RecordType) (head : RecordHead Value)
    (values : List Value) :
    Layout.encodedSize encoding (.record type) (.record head values) =
      if head.hides .encodedSize then .error (.fault .unsupported)
      else head.throughFields 0 (sizeOfFields encoding head.type.fields values) := by
  rw [Layout.encodedSize, sizeOfFields,
    ← zip_attach fun (field : Field) v => field.layout.encodedSize encoding v]

end

end RecordWire
