import RecordWire.Config.Error
import RecordWire.Text.Blank
import RecordWire.Value.Basic

/-!
Levels of logging by number or by name. A level is an integer or a boolean and stays as it is given;
a name may have blanks around it and any case.
-/

namespace RecordWire.LogLevel

/-- Upper case of the code points whose upper case is an ASCII letter. -/
def upper (c : CodePoint) : CodePoint :=
  if c.val = 0x131 then 'I'
  else if c.val = 0x17F then 'S'
  else c.toUpper

def named : List (Text × Int) :=
  [("CRITICAL", 50), ("FATAL", 50), ("ERROR", 40), ("WARN", 30), ("WARNING", 30), ("INFO", 20),
    ("DEBUG", 10), ("NOTSET", 0)].map fun (name, n) => (Text.ofString name, n)

def resolve (level : Value) : Except ConfigError Value :=
  match level.toInt? with
  | some _ => .ok level
  | none =>
    match named.lookup ((Text.trim level.asText).map upper) with
    | some n => .ok (.int n)
    | none => .error (.logLevel level)

def number (level : Value) : Int := level.toInt?.getD 0

end RecordWire.LogLevel
