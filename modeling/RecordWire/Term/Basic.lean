import RecordWire.Codec.Error
import RecordWire.Value.Compare

/-!
Values as they are written down: with variables for records that were made before. Some terms have no
value: a record that is spelled out, or a dictionary with a key that cannot be one.
-/

namespace RecordWire

inductive Term where
  | atom (a : Atom)
  | list (items : List Term)
  | tuple (items : List Term)
  | dict (entries : List (Term × Term))
  | var (name : Text)
  | refused (why : Fault)

instance : Inhabited Term := ⟨.refused .spelledRecord⟩

namespace Term

abbrev Scope := Text → Except Fault Value

def Scope.empty : Scope := fun _ => .error .noEntry

mutual

/-- The value of a term. Of equal keys in a dictionary the first spelling and the last value
count. -/
def eval (scope : Scope) : Term → Except Fault Value
  | atom a => .ok (.atom a)
  | list items => (evalAll scope items).map .list
  | tuple items => (evalAll scope items).map .tuple
  | dict entries => (evalEntries scope entries).map fun es => .dict (Value.ofPairs es)
  | var name => scope name
  | refused why => .error why

def evalAll (scope : Scope) : List Term → Except Fault (List Value)
  | [] => .ok []
  | t :: ts =>
    match eval scope t with
    | .error e => .error e
    | .ok v => (evalAll scope ts).map (v :: ·)

def evalEntries (scope : Scope) : List (Term × Term) → Except Fault (List (Value × Value))
  | [] => .ok []
  | (k, t) :: es =>
    match eval scope k with
    | .error e => .error e
    | .ok k =>
      match eval scope t with
      | .error e => .error e
      | .ok v =>
        if k.isKey then (evalEntries scope es).map ((k, v) :: ·) else .error .unsupported

end

end Term

end RecordWire
