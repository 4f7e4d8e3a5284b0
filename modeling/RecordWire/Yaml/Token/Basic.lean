import RecordWire.Text.Basic

/-!
Tokens of a document. Indentation is told by tokens that begin and end block collections.
-/

namespace RecordWire.Yaml

inductive Token
  | documentStart
  | documentEnd
  | blockList
  | blockMap
  | blockEnd
  | openList
  | closeList
  | openMap
  | closeMap
  | entry
  | comma
  | key
  | value
  | scalar (text : Text) (plain : Bool)
  deriving DecidableEq

end RecordWire.Yaml
