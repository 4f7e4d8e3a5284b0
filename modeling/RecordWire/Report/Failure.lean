import RecordWire.Files.Tree
import RecordWire.Registry.Build
import RecordWire.Report.Basic

/-!
Everything that can stop an operation of the library, and its report.
-/

namespace RecordWire

inductive Failure
  | wire (e : WireError)
  | schema (e : SchemaError)
  | config (e : ConfigError)
  | file (e : FileError)
  /-- An input that is no document. -/
  | noDocument
  /-- A name of no record type; the known names are told. -/
  | unknownType (name : Text) (known : List Text)

namespace Failure

def fault (why : Fault) : Failure := wire (.fault why)

/-- Refuses a path that no file can have: one that cannot be encoded, or one with a NUL. -/
def checkPath (path : Text) : Except Failure Unit :=
  match Encoding.utf8.encode path with
  | none => .error (.fault .unencodable)
  | some bs => if bs.contains 0 then .error (.fault .badText) else .ok ()

def ofRegistry : RegistryError → Failure
  | .schema e => schema e
  | .missing => fault .noEntry
  | .fault why => fault why

def report : Failure → Report
  | wire e => .ofWire e
  | schema e => .ofSchema e
  | config e => .ofConfig e
  | file _ => .fault .unreadable
  | noDocument => .fault .noDocument
  | unknownType name known =>
    .plain .base ("Unknown record type " ++ name.quoted ++ "; known types: " ++
      Text.join ", " known)

end Failure

end RecordWire
