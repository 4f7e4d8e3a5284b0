import RecordWire.Value.Basic

/-!
What can be listed. To list a record is to go through its fields by its own operation, which something
of the same name may hide.
-/

namespace RecordWire

namespace Value

mutual

/-- Whether the fields of all records in a value can be gone through. -/
def isListed : Value → Bool
  | atom _ => true
  | list items => areListed items
  | tuple items => areListed items
  | dict entries => entriesListed entries
  | record ⟨type, object, others⟩ fields =>
    !(RecordHead.mk type object others).hides .fields && areListed fields

def areListed : List Value → Bool
  | [] => true
  | v :: vs => isListed v && areListed vs

def entriesListed : List (Value × Value) → Bool
  | [] => true
  | (k, v) :: es => isListed k && isListed v && entriesListed es

end

def hides (operation : Operation) : Value → Bool
  | record head _ => head.hides operation
  | _ => false

end Value

end RecordWire
