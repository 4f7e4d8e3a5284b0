import RecordWire.Text.Basic

/-!
The classes of errors that the library reports, each a kind of the class above it.
-/

namespace RecordWire

inductive ErrorClass
  | base
  | illegalArgument
  | configuration
  | schema
  | serialization
  | truncatedInput
  | malformedInput
  | invalidValue
  deriving DecidableEq, Repr

namespace ErrorClass

def name : ErrorClass → Text
  | base => "SmeException"
  | illegalArgument => "IllegalArgumentException"
  | configuration => "ConfigurationException"
  | schema => "SchemaException"
  | serialization => "SerializationException"
  | truncatedInput => "TruncatedInputError"
  | malformedInput => "MalformedInputError"
  | invalidValue => "InvalidValueError"

def all : List ErrorClass :=
  [base, illegalArgument, configuration, schema, serialization, truncatedInput, malformedInput,
    invalidValue]

def ofName? (t : Text) : Option ErrorClass := all.find? fun c => c.name == t

/-- The library's classes that a class is a kind of, itself first. -/
def ancestors : ErrorClass → List ErrorClass
  | base => [base]
  | illegalArgument => [illegalArgument, base]
  | configuration => [configuration, base]
  | schema => [schema, base]
  | serialization => [serialization, base]
  | truncatedInput => [truncatedInput, serialization, base]
  | malformedInput => [malformedInput, serialization, base]
  | invalidValue => [invalidValue, serialization, base]

def lineage (c : ErrorClass) : List Text :=
  c.ancestors.map name ++ [("Exception" : Text), ("BaseException" : Text)]

end ErrorClass

end RecordWire
