import RecordWire.Codec.Fault
import RecordWire.Value.Printer

/-!
What can go wrong when records are written, read and converted. Errors are causes; `message` gives
their wording.
-/

namespace RecordWire

/-- A value that does not fit the kind of its field. -/
inductive InvalidValue
  | notInteger (kind : IntKind) (got : Text)
  | outOfRange (kind : IntKind) (n : Int)
  | unreadableInteger (kind : IntKind) (got : Value)
  | notIntegral (kind : IntKind) (x : Binary64)
  | notNumber (kind : Primitive) (got : Text)
  | unreadableNumber (kind : Primitive) (got : Value)
  /-- Rounding to single precision would change the number. -/
  | inexactSingle (got : Value) (nearest : Binary64)
  | tooLargeForSingle (got : Value)
  /-- A raw write of a value that its format does not hold. -/
  | unpackable (got : Value) (format : CodePoint)
  | notBool (got : Text)
  | unreadableBool (got : Value)
  | notChar (got : Value)
  | notString (got : Text)
  /-- The flag says whether the value was asked for its parts. -/
  | notList (layout : Text) (got : Text) (asked : Bool)
  | notMapping (got : Value)
  | notPairs (got : Value)
  | notPair (got : Value)
  | notRecord (type : Text) (got : Text)

namespace InvalidValue

def message : InvalidValue → Text
  | notInteger k got => k.name ++ " field expects an int, got " ++ got
  | outOfRange k n =>
    Text.ofInt n ++ " is out of range for " ++ k.name ++ " [" ++
      Text.ofInt k.low ++ ", " ++ Text.ofInt k.high ++ "]"
  | unreadableInteger k got => k.name ++ " field expects an int, got " ++ got.shown
  | notIntegral k x => k.name ++ " field expects an integral value, got " ++ x.text
  | notNumber k got => k.name ++ " field expects a number, got " ++ got
  | unreadableNumber k got => k.name ++ " field expects a number, got " ++ got.shown
  | inexactSingle got nearest =>
    got.shown ++ " is not exactly representable as a 32-bit float; use " ++ nearest.text
  | tooLargeForSingle got => got.shown ++ " does not fit a 32-bit float"
  | unpackable got format =>
    "Value " ++ got.shown ++ " does not fit format '" ++ [format] ++ "'"
  | notBool got => "bool field expects a bool, got " ++ got
  | unreadableBool got => "Not a boolean: " ++ got.shown
  | notChar got => "char field expects a single Latin-1 character, got " ++ got.shown
  | notString got => "string field expects str or bytes, got " ++ got
  | notList layout got _ => layout ++ " field expects a list, got " ++ got
  | notMapping got => "Map field expects a mapping, got " ++ got.shown
  | notPairs got =>
    "Map field expects a mapping or (key, value) pairs, got " ++ got.shown
  | notPair got => "Map entries must be pairs, got " ++ got.shown
  | notRecord type got => "Field expects " ++ type ++ ", got " ++ got

def shownValues : InvalidValue → List Value
  | outOfRange _ n => [.int n]
  | unreadableInteger _ v | unreadableNumber _ v | inexactSingle v _ | tooLargeForSingle v
  | unpackable v _ | unreadableBool v | notChar v | notMapping v | notPairs v | notPair v => [v]
  | _ => []

/-- Whether the value failed in an operation on it, and not in a check. -/
def hasCause : InvalidValue → Bool
  | unreadableInteger .. | unreadableNumber .. | tooLargeForSingle .. | unpackable .. => true
  | notList _ _ asked => asked
  | notPairs .. => true
  | _ => false

end InvalidValue

/-- A declaration or a conversion that makes no sense for its type. -/
inductive IllegalArgument
  | mapKey (layout : Text)
  | notLayout (got : Value)
  | fieldOfBase (field : Text) (className : Text)
  | notMapping (type : Text) (got : Text)
  | unknownFields (type : Text) (names : List Text)

namespace IllegalArgument

def message : IllegalArgument → Text
  | mapKey layout => "Map keys must be scalar or string kinds, got " ++ layout
  | notLayout got =>
    "Field codec must be a FieldCodec or record class, got " ++ got.shown
  | fieldOfBase field className =>
    "Field " ++ field.quoted ++ " is already declared on a base of " ++ className
  | notMapping type got => type ++ " expects a mapping, got " ++ got
  | unknownFields type names =>
    type ++ " has no fields named: " ++ Text.join ", " names

end IllegalArgument

/-- What a length or count in front of a value declares. -/
inductive Declared
  | stringLength | listCount | mapCount
  deriving DecidableEq, Repr

def Declared.text : Declared → Text
  | stringLength => "string length"
  | listCount => "list count"
  | mapCount => "map count"

inductive WireError
  /-- A read of more bytes than there are; the flag says whether a stream ended. -/
  | truncated (needed offset available : Int) (streamed : Bool)
  /-- A length or count that the rest of the input cannot hold. -/
  | oversized (what : Declared) (needed offset remaining : Int)
  | trailing (count offset : Int)
  | invalid (why : InvalidValue)
  | illegal (why : IllegalArgument)
  | notSerializable (got : Text)
  | notRecordType (got : Value)
  | fault (why : Fault)

namespace WireError

def message? : WireError → Option Text
  | truncated needed offset available streamed =>
    some ("Needed " ++ Text.ofInt needed ++ " bytes at offset " ++
      Text.ofInt offset ++
      (if streamed then ", but the stream ended after " ++ Text.ofInt available
       else ", but only " ++ Text.ofInt available ++ " remain"))
  | oversized what needed offset remaining =>
    some ("Declared " ++ what.text ++ " needs at least " ++ Text.ofInt needed ++
      " bytes at offset " ++ Text.ofInt offset ++ ", but only " ++
      Text.ofInt remaining ++ " remain")
  | trailing count offset =>
    some (Text.ofInt count ++ " trailing bytes after record at offset " ++
      Text.ofInt offset)
  | invalid why => some why.message
  | illegal why => some why.message
  | notSerializable got => some ("Only Record instances can be serialized, got " ++ got)
  | notRecordType got => some ("Expected a Record subclass, got " ++ got.shown)
  | fault why => why.message?

def shownValues : WireError → List Value
  | invalid why => why.shownValues
  | illegal (.notLayout v) => [v]
  | notRecordType v => [v]
  | _ => []

def isShowable (e : WireError) : Bool := e.shownValues.all Value.isShowable

def hasCause : WireError → Bool
  | invalid why => why.hasCause
  | _ => false

end WireError

end RecordWire
