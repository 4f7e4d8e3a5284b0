import RecordWire.Codec.Collect
import RecordWire.Value.Compare
import RecordWire.Yaml.Node.Parser
import RecordWire.Yaml.Scalar

/-!
The value that a document means. Of equal keys in a map the first spelling and the last value count,
and a key cannot be a list or a map. Maps that are merged in come before the entries of their own.
-/

namespace RecordWire.Yaml

namespace Node

def meaning (text : Text) (plain : Bool) : Plain :=
  if plain then .ofText text else .atom (.text text)

def isMerge : Node → Bool
  | scalar text plain =>
    match meaning text plain with
    | .merge => true
    | _ => false
  | _ => false

def scalarValue (isKey : Bool) : Plain → Except Refusal Value
  | .atom a => .ok (.atom a)
  | .refused why => .error why
  | .default => if isKey then .ok (.text "=") else .error .noDocument
  | .merge => .error .noDocument

mutual

def value (isKey : Bool) : Node → Except Refusal Value
  | scalar text plain => scalarValue isKey (meaning text plain)
  | list items => (values items).map .list
  | map nodes => (entries nodes).map fun (merged, own) => .dict (Value.ofPairs (merged ++ own))

def values : List Node → Except Refusal (List Value)
  | [] => .ok []
  | n :: ns =>
    match value false n with
    | .error why => .error why
    | .ok v => (values ns).map (v :: ·)

def entries : List (Node × Node) → Except Refusal (List (Value × Value) × List (Value × Value))
  | [] => .ok ([], [])
  | (k, n) :: es =>
    if k.isMerge then
      match merged n, entries es with
      | .error why, _ | _, .error why => .error why
      | .ok more, .ok (merged, own) => .ok (more ++ merged, own)
    else
      match value true k with
      | .error why => .error why
      | .ok k =>
        if !k.isKey then .error .noDocument
        else
          match value false n, entries es with
          | .error why, _ | _, .error why => .error why
          | .ok v, .ok (merged, own) => .ok (merged, (k, v) :: own)

/-- The entries of a map, or of the maps in a list, those of the last map first. -/
def merged : Node → Except Refusal (List (Value × Value))
  | scalar _ _ => .error .noDocument
  | map nodes => (entries nodes).map fun (merged, own) => merged ++ own
  | list items => mergedAll items

def mergedAll : List Node → Except Refusal (List (Value × Value))
  | [] => .ok []
  | map nodes :: ns =>
    match entries nodes, mergedAll ns with
    | .error why, _ | _, .error why => .error why
    | .ok (merged, own), .ok later => .ok (later ++ (merged ++ own))
  | _ :: _ => .error .noDocument

end

end Node

def load (t : Text) : Except Refusal Value :=
  match Token.scan t with
  | .error why => .error why
  | .ok tokens =>
    match parseDocument tokens with
    | none => .error .noDocument
    | some none => .ok .none
    | some (some node) => node.value false

end RecordWire.Yaml
