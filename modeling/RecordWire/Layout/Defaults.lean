import RecordWire.Layout.Basic

/-!
The default values in a record type, also those of the types of its fields.
-/

namespace RecordWire

variable {δ ε : Type}

mutual

def Layout.mapDefaults (f : δ → ε) : Layout δ → Layout ε
  | .primitive p => .primitive p
  | .rgb565 => .rgb565
  | .list element => .list (element.mapDefaults f)
  | .map key value => .map key (value.mapDefaults f)
  | .record type => .record (type.mapDefaults f)

def RecordLayout.mapDefaults (f : δ → ε) : RecordLayout δ → RecordLayout ε
  | ⟨id, className, typeName, bases, fields⟩ =>
    ⟨id, className, typeName, bases, FieldLayout.mapAllDefaults f fields⟩

def FieldLayout.mapAllDefaults (f : δ → ε) : List (FieldLayout δ) → List (FieldLayout ε)
  | [] => []
  | ⟨name, layout, default?⟩ :: fields =>
    ⟨name, layout.mapDefaults f, default?.map f⟩ :: FieldLayout.mapAllDefaults f fields

end

end RecordWire
