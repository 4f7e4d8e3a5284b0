import RecordWire.Number.Numeral
import RecordWire.Number.Shortest
import RecordWire.Value.Basic

/-!
Values as text. Texts and bytes stand between quotes, lists, tuples and dictionaries between their
brackets, and a record is its type's name with its fields. A record may have been given another name
for its type.
-/

namespace RecordWire

def Atom.shown : Atom → Text
  | none => "None"
  | bool true => "True"
  | bool false => "False"
  | int n => Text.ofInt n
  | float x _ => x.text
  | text t => t.quoted
  | bytes bs => bs.quoted
  | byteArray bs => bs.quotedArray
  | date d => d.shown
  | moment m => m.shown

def Atom.asText : Atom → Text
  | text t => t
  | date d => d.text
  | moment m => m.text
  | a => a.shown

/-- Whether an atom can be shown: an integer of more digits than are read cannot. -/
def Atom.isShowable : Atom → Bool
  | int n => decide (n.natAbs < 10 ^ Numeral.maxDigits)
  | _ => true

namespace Value

def commas (parts : List Text) : Text := Text.join ", " parts

mutual

def shown : Value → Text
  | atom a => a.shown
  | list items => "[" ++ commas (showAll items) ++ "]"
  | tuple items =>
    "(" ++ commas (showAll items) ++
      (if items.length = 1 then ",)" else ")")
  | dict entries => CodePoint.openBrace :: commas (showEntries entries) ++ [CodePoint.closeBrace]
  | record ⟨type, _, others⟩ fields =>
    showTitle type.typeName others ++ "(" ++ commas (showFields type.fieldNames fields) ++ ")"

def showAll : List Value → List Text
  | [] => []
  | v :: vs => shown v :: showAll vs

def showEntries : List (Value × Value) → List Text
  | [] => []
  | (k, v) :: es => (shown k ++ ": " ++ shown v) :: showEntries es

def showFields : List Text → List Value → List Text
  | name :: names, v :: vs => (name ++ "=" ++ shown v) :: showFields names vs
  | _, _ => []

def showTitle (typeName : Text) : List (Text × Value) → Text
  | [] => typeName
  | (name, v) :: others =>
    if name = Operation.typeNameMember then
      match v with
      | atom a => a.asText
      | v => shown v
    else showTitle typeName others

end

/-- A value as a text of its own: a text is itself, everything else is as shown in messages. -/
def asText : Value → Text
  | atom a => a.asText
  | v => v.shown

def titleOf (head : RecordHead Value) : Text := showTitle head.type.typeName head.others

mutual

/-- Whether a value can be shown: an integer of too many digits cannot. -/
def isShowable : Value → Bool
  | atom a => a.isShowable
  | list items => areShowable items
  | tuple items => areShowable items
  | dict entries => entriesShowable entries
  | record ⟨_, _, others⟩ fields => othersShowable others && areShowable fields

def areShowable : List Value → Bool
  | [] => true
  | v :: vs => isShowable v && areShowable vs

def entriesShowable : List (Value × Value) → Bool
  | [] => true
  | (k, v) :: es => isShowable k && isShowable v && entriesShowable es

def othersShowable : List (Text × Value) → Bool
  | [] => true
  | (name, v) :: others =>
    (name ≠ Operation.typeNameMember || isShowable v) && othersShowable others

end

end Value

end RecordWire
