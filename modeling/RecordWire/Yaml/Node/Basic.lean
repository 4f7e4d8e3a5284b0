import RecordWire.Text.Basic

/-!
The nodes of a document: scalars, lists and maps. What a scalar means is not decided here.
-/

namespace RecordWire.Yaml

inductive Node where
  | scalar (text : Text) (plain : Bool)
  | list (items : List Node)
  | map (entries : List (Node × Node))

def Node.empty : Node := .scalar [] true

end RecordWire.Yaml
