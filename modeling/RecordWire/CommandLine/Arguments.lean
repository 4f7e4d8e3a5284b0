import RecordWire.Text.Digit

/-!
Arguments of a command line. Options may be shortened as long as they stay unambiguous, and their
values follow them or stand behind an equals sign; two dashes alone end the options. Positional
arguments fill slots from left to right: as many slots at a time as the arguments up to the next
option allow, so an optional slot stays empty if an option comes first.
-/

namespace RecordWire.CommandLine

/-- Why a command line ends before it is run. -/
inductive Exit
  | help
  | usage
  deriving DecidableEq, Repr

/-- What an option does with what follows it. -/
inductive OptionKind
  | help
  /-- Takes a value, which is read by the function and may be refused by it. -/
  | value (key : Text) (read? : Text → Option Text)

structure OptionSpec where
  names : List Text
  kind : OptionKind

inductive Slot
  | required (key : Text)
  | optional (key default : Text)
  /-- A command, with everything after it. -/
  | command

/-- What arguments say: values by key, of which the last one counts, and what is left over. A value
that consists of two dashes alone has no text. -/
structure Found where
  values : List (Text × Option Text) := []
  extras : List Text := []

namespace Found

def set (key : Text) (value? : Option Text) (f : Found) : Found :=
  { f with values := (key, value?) :: f.values }

def leave (args : List Text) (f : Found) : Found := { f with extras := f.extras ++ args }

end Found

/-- What stands behind an option within its argument. -/
inductive Attached
  | nothing
  /-- What is behind an equals sign. -/
  | value (t : Text)
  /-- What follows a letter at once. -/
  | letters (t : Text)

/-- An option as it was given. -/
structure Given where
  spec : OptionSpec
  name : Text
  attached : Attached

/-- What an argument is. -/
inductive Word
  | plain
  /-- The two dashes that end the options. -/
  | dashes
  /-- An option, known or not. -/
  | option (given? : Option Given)

def dash : CodePoint := 0x2D

def twoDashes : Text := [dash, dash]

def equalsSign : CodePoint := 0x3D

def givenAs? (options : List OptionSpec) (name : Text) (attached : Attached) : Option Given :=
  (options.find? fun o => o.names.contains name).map fun o => ⟨o, name, attached⟩

/-- An argument before and after its first equals sign, if it has one. -/
def splitValue (arg : Text) : Text × Attached :=
  let (name, rest) := arg.span fun c => c ≠ equalsSign
  match rest with
  | [] => (name, .nothing)
  | _ :: value => (name, .value value)

def candidates (options : List OptionSpec) (arg : Text) : List Given :=
  let named := options.flatMap fun o => o.names.map fun name => (o, name)
  match arg with
  | _ :: second :: rest =>
    if second = dash then
      let (start, attached) := splitValue arg
      named.filterMap fun (o, name) =>
        if Text.isPrefix start name then some ⟨o, name, attached⟩ else none
    else
      named.filterMap fun (o, name) =>
        if name = [dash, second] then some ⟨o, name, .letters rest⟩
        else if Text.isPrefix arg name then some ⟨o, name, .nothing⟩
        else none
  | _ => []

def dropLineEnd (t : Text) : Text :=
  if t.getLast? = some CodePoint.lineFeed then t.dropLast else t

/-- Whether an argument is a negative number. A line end may follow it. -/
def isNegativeNumber (arg : Text) : Bool :=
  match dropLineEnd arg with
  | [] => false
  | c :: t =>
    let isDecimal (c : CodePoint) : Bool := c.decimalValue?.isSome
    c = dash &&
      ((!t.isEmpty && t.all isDecimal) ||
        match t.dropWhile isDecimal with
        | [] => false
        | p :: digits =>
          p = CodePoint.ofChar '.' && !digits.isEmpty && digits.all isDecimal)

/-- What an argument before the two dashes is, unless it may stand for several options. -/
def classify (options : List OptionSpec) (arg : Text) : Except Exit Word :=
  if arg.head? ≠ some dash then .ok .plain
  else
    match givenAs? options arg .nothing with
    | some given => .ok (.option (some given))
    | none =>
      if arg.length = 1 then .ok .plain
      else
        let (name, attached) := splitValue arg
        match givenAs? options name attached with
        | some given => .ok (.option (some given))
        | none =>
          match candidates options arg with
          | [given] => .ok (.option (some given))
          | _ :: _ :: _ => .error .usage
          | [] =>
            if isNegativeNumber arg || arg.contains (CodePoint.ofChar ' ') then .ok .plain
            else .ok (.option none)

def classifyAll (options : List OptionSpec) : List Text → Except Exit (List (Text × Word))
  | [] => .ok []
  | arg :: args =>
    if arg = twoDashes then .ok ((arg, .dashes) :: args.map fun a => (a, .plain))
    else
      match classify options arg with
      | .error e => .error e
      | .ok word => (classifyAll options args).map ((arg, word) :: ·)

def Word.isPlain : Word → Bool
  | plain => true
  | _ => false

def Word.isDashes : Word → Bool
  | dashes => true
  | _ => false

def Word.isOption : Word → Bool
  | option _ => true
  | _ => false

abbrev Words := List (Text × Word)

def spanDashes (words : Words) : Words × Words := words.span fun w => w.2.isDashes

/-- The words that a slot takes, and those after them, unless it needs more. -/
def Slot.take? (slot : Slot) (words : Words) : Option (Words × Words) :=
  let (before, rest) := spanDashes words
  match slot, rest with
  | .command, (arg, .plain) :: rest => some (before ++ (arg, .plain) :: rest, [])
  | .command, _ => none
  | _, (arg, .plain) :: rest =>
    let (after, rest) := spanDashes rest
    some (before ++ (arg, .plain) :: after, rest)
  | .optional _ _, rest => some (before, rest)
  | .required _, _ => none

/-- The text among the words of one argument, of which the first two dashes are dropped. -/
def argument? (words : Words) : Option Text := ((words.map (·.1)).erase twoDashes).head?

abbrev Subcommand := List Text → Except Exit Found

def Slot.apply (sub : Subcommand) (slot : Slot) (words : Words) (f : Found) : Except Exit Found :=
  match slot with
  | .command =>
    (sub (words.map (·.1))).map fun g => ⟨g.values ++ f.values, f.extras ++ g.extras⟩
  | .required key => .ok (f.set key (argument? words))
  | .optional key default => .ok (f.set key ((argument? words).getD default))

/-- Fills as many slots as words allow. -/
def fillSlots (sub : Subcommand) : List Slot → Words → Found →
    Except Exit (List Slot × Words × Found)
  | [], words, f => .ok ([], words, f)
  | slot :: slots, words, f =>
    match slot.take? words with
    | none => .ok (slot :: slots, words, f)
    | some (taken, rest) =>
      match slot.apply sub taken f with
      | .error e => .error e
      | .ok f => fillSlots sub slots rest f

/-- Sets the value of an option. Two dashes are taken for the end of the options, and not read. -/
def setOption (key : Text) (read? : Text → Option Text) (value : Text) (f : Found) :
    Except Exit Found :=
  if value = twoDashes then .ok (f.set key none)
  else
    match read? value with
    | some value => .ok (f.set key value)
    | none => .error .usage

/-- What letters say that stand together behind one dash, after one that asks for help. All of them
have to be options. The flag says that a plain argument follows them. -/
def helpLetters (options : List OptionSpec) (followed : Bool) : Text → Exit
  | [] => .help
  | c :: rest =>
    match givenAs? options [dash, c] .nothing with
    | none => .usage
    | some given =>
      match given.spec.kind with
      | .help => helpLetters options followed rest
      | .value _ _ => if rest.isEmpty && !followed then .usage else .help

/-- What an option says that asks for help, with what stands behind it. Only a name of one letter can
have more letters behind it, which an equals sign may set off. -/
def helpExit (options : List OptionSpec) (followed : Bool) (name behind : Text) : Exit :=
  if behind.isEmpty || Text.isPrefix twoDashes name then .usage
  else helpLetters options followed behind

def applyOption (options : List OptionSpec) (given : Given) (words : Words) (f : Found) :
    Except Exit (Words × Found) :=
  match given.spec.kind, given.attached with
  | .help, .nothing => .error .help
  | .help, .value t | .help, .letters t =>
    .error (helpExit options (words.head?.any fun w => w.2.isPlain) given.name t)
  | .value key read?, .value value | .value key read?, .letters value =>
    (setOption key read? value f).map fun f => (words, f)
  | .value key read?, .nothing =>
    match words with
    | (value, .plain) :: rest => (setOption key read? value f).map fun f => (rest, f)
    | _ => .error .usage

/-- Goes through words from left to right. Every round takes at least one of them. -/
def scan (options : List OptionSpec) (sub : Subcommand) :
    (fuel : Nat) → List Slot → Words → Found → Except Exit (List Slot × Found)
  | 0, slots, _, f => .ok (slots, f)
  | fuel + 1, slots, words, f =>
    match words with
    | (arg, .option given?) :: rest =>
      match given? with
      | none => scan options sub fuel slots rest (f.leave [arg])
      | some given =>
        match applyOption options given rest f with
        | .error e => .error e
        | .ok (rest, f) => scan options sub fuel slots rest f
    | _ =>
      match fillSlots sub slots words f with
      | .error e => .error e
      | .ok (slots, rest, f) =>
        let (left, rest) :=
          if rest.length < words.length then ([], rest)
          else rest.span fun w => !w.2.isOption
        if rest.isEmpty then .ok (slots, f.leave (left.map (·.1)))
        else if rest.any fun w => w.2.isOption then
          scan options sub fuel slots rest (f.leave (left.map (·.1)))
        else .ok (slots, f.leave (rest.map (·.1)))

/-- Reads arguments for options and slots. Slots that need a value must have got one. -/
def parse (options : List OptionSpec) (slots : List Slot) (sub : Subcommand)
    (args : List Text) : Except Exit Found :=
  match classifyAll options args with
  | .error e => .error e
  | .ok words =>
    match scan options sub (2 * words.length + 1) slots words {} with
    | .error e => .error e
    | .ok (slots, f) =>
      let isMissing : Slot → Bool
        | .optional _ _ => false
        | _ => true
      if slots.any isMissing then .error .usage else .ok f

end RecordWire.CommandLine
