import RecordWire.Codec.Error

/-!
What is wrong with a configuration.
-/

namespace RecordWire

inductive ConfigError
  | byteOrder (got : Value)
  | sortMapKeys
  | strict
  | encoding (got : Value)
  | notMapping
  | unknownKeys (names : List Text)
  | noFile (path : Value)
  | unreadableFile (reason : Text)
  | noDocument
  | logLevel (got : Value)
  | fault (why : Fault)

namespace ConfigError

def message? : ConfigError → Option Text
  | byteOrder got => some ("byte_order must be one of: little, big, native; got " ++ got.shown)
  | sortMapKeys => some "sort_map_keys must be a boolean"
  | strict => some "strict must be a boolean"
  | encoding got => some ("Unknown string_encoding: " ++ got.shown)
  | notMapping => some "Codec configuration must be a mapping"
  | unknownKeys names => some ("Unknown configuration keys: " ++ Text.join ", " names)
  | noFile path => some ("Configuration file not found: " ++ path.asText)
  | unreadableFile reason => some ("Failed to read configuration file: " ++ reason)
  | noDocument => some "Failed to parse YAML"
  | logLevel got => some ("Unknown log level: " ++ got.shown)
  | fault why => why.message?

def isShowable : ConfigError → Bool
  | byteOrder got | encoding got | noFile got | logLevel got => got.isShowable
  | _ => true

def hasCause : ConfigError → Bool
  | unreadableFile _ | noDocument => true
  | _ => false

end ConfigError

end RecordWire
