/-!
Why a text has no value as a document.
-/

namespace RecordWire.Yaml

inductive Refusal
  | noDocument
  /-- A scalar has the form of a number or of a day, or an escape that of a code point, and is none. -/
  | noValue
  /-- A number is too large to be worked with. -/
  | tooLarge
  deriving DecidableEq, Repr

namespace Refusal

def ofOption {α : Type} : Option α → Except Refusal α
  | some a => .ok a
  | none => .error .noDocument

end Refusal

end RecordWire.Yaml
