import RecordWire.Layout.Basic
import RecordWire.Text.Quoted

/-!
Layouts and fields as they are shown: the family that a layout belongs to, and its name.
-/

namespace RecordWire

variable {δ : Type}

def Layout.family : Layout δ → Text
  | .primitive (.int _) => "IntegerCodec"
  | .primitive .float | .primitive .double => "FloatCodec"
  | .primitive .bool => "BoolCodec"
  | .primitive .char => "CharCodec"
  | .primitive .string => "StringCodec"
  | .rgb565 => "Rgb565Codec"
  | .list _ => "ListCodec"
  | .map _ _ => "MapCodec"
  | .record _ => "RecordCodec"

def Layout.shown (layout : Layout δ) : Text := layout.family ++ "(" ++ layout.name ++ ")"

def FieldLayout.shown (field : FieldLayout δ) : Text :=
  "Field(" ++ field.name.quoted ++ ", " ++ field.layout.name ++ ")"

end RecordWire
