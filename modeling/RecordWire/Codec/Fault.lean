import RecordWire.Text.Basic

/-!
Faults: failures of operations that no cause of the library describes, such as asking a number for its
parts.
-/

namespace RecordWire

/-- A failure of an operation on a value, a text or a stream. -/
inductive Fault
  /-- A value does not support the operation. -/
  | unsupported
  /-- A record cannot be made with fields that its type does not have. -/
  | unexpectedFields (className : Text) (names : List Text)
  /-- A value has no such member. -/
  | noMember
  /-- A dictionary or a name table has no such key. -/
  | noEntry
  /-- A value has another number of parts, or a part that is out of range. -/
  | wrongParts
  /-- A name holds a NUL, a format is none, or an integer has too many digits. -/
  | badText
  /-- An integer is too large for a floating-point number. -/
  | tooLarge
  | unencodable
  | undecodable
  /-- The bytes of a fixed-width value are of another width. -/
  | wrongWidth
  /-- A stream takes no more bytes. -/
  | streamFull
  /-- A file cannot be opened. -/
  | unreadable
  /-- An input is no document. -/
  | noDocument
  /-- A record is spelled out where only records made before can stand. -/
  | spelledRecord
  /-- A record that contains itself has no end. -/
  | endless

namespace Fault

def message? : Fault → Option Text
  | unexpectedFields className names =>
    some (className ++ " has no fields named: " ++ Text.join ", " names)
  | _ => none

end Fault

end RecordWire
