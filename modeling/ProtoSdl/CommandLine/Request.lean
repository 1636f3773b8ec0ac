import ProtoSdl.CommandLine.Argument

/-!
  Requests — what a command line asks for

  The texts before the separator `--` are all classified first. Then they are read
  from left to right: operands are the input, the output, and after those without
  meaning; a letter without value may be followed by further letters in the same
  text; a switch with a value takes the attached text or the operand that follows.
  Everything after the separator is an operand.

  The separator itself goes away together with an operand: the one before it, if
  that became input or output, or else the one after it, if there is one and it is
  still needed. Where neither is so the separator has no meaning and is told as such.
  In any other place where a value is wanted, a text like the separator stands for an
  absent value.

  Reading ends early when help is asked for or something is wrong (`Stop`). Errors
  in what was read come first, then missing operands, then arguments without meaning.
-/

namespace ProtoSdl.CommandLine

/-- What a batch is asked for; a value may be absent. -/
structure Request where
  input : String
  output : Option String
  isRecursive : Bool := false
  includes : List (Option String) := []
  jobs : Option Int := some 1
  deriving DecidableEq, Repr

/-- Why there is no request. -/
inductive Stop where
  /-- Help is asked for. -/
  | help
  | misuse (e : UsageError)
  deriving DecidableEq, Repr

/-- The word that asks for help if it comes first. -/
def helpWord : String := "help"

/-- The text after which everything is an operand. -/
def separator : String := "--"

/-- The value that a text stands for. -/
def valueOf (text : String) : Option String := if text = separator then none else some text

/-- What has been read of a request. -/
structure Draft where
  input : Option String := none
  output : Option (Option String) := none
  isRecursive : Bool := false
  includes : List (Option String) := []
  jobs : Option Int := some 1
  /-- The arguments without meaning. -/
  rejected : List String := []
  /-- Whether the last argument became input or output. -/
  endsPlaced : Bool := false
  deriving DecidableEq, Repr

namespace Draft

/-- The draft with arguments that have no meaning. -/
def reject (d : Draft) (texts : List String) : Draft :=
  { d with rejected := d.rejected ++ texts, endsPlaced := false }

/-- The draft with an operand, whose text and value are given. -/
def place (d : Draft) (text : String) (value : Option String) : Draft :=
  if d.input.isNone then { d with input := some text, endsPlaced := true }
  else if d.output.isNone then { d with output := some value, endsPlaced := true }
  else d.reject [text]

/-- The draft with a switch and its value. -/
def set (d : Draft) (value : Option String) : Switch → Except Stop Draft
  | .help => .error .help
  | .recursive => .ok { d with isRecursive := true, endsPlaced := false }
  | .includes => .ok { d with includes := d.includes ++ [value], endsPlaced := false }
  | .jobs =>
    match value with
    | none => .ok { d with jobs := none, endsPlaced := false }
    | some text =>
      match Text.integer? text with
      | some n => .ok { d with jobs := some n, endsPlaced := false }
      | none => .error (.misuse (.notANumber .jobs text))

end Draft

/-- Switches in one text; only the last one can have a value. -/
structure Group where
  before : List Switch := []
  last : Switch
  attached : Option String := none
  deriving DecidableEq, Repr

/-- The group of a switch and the text attached to its letter. -/
def Group.ofLetters (s : Switch) : List Char → Except UsageError Group
  | [] => if s.takesValue then .ok ⟨[], s, some ""⟩ else .error (.unusedValue s "")
  | c :: rest =>
    if s.takesValue then .ok ⟨[], s, some (String.ofList (c :: rest))⟩
    else
      match Switch.ofName? (String.ofList ['-', c]), rest with
      | none, _ => .error (.unusedValue s (String.ofList (c :: rest)))
      | some next, [] => .ok ⟨[s], next, none⟩
      | some next, _ :: _ => do
        let g ← Group.ofLetters next rest
        return { g with before := s :: g.before }

/-- The group of a switch in a text. -/
def Group.ofSwitch : Form → Switch → Option String → Except UsageError Group
  | _, s, none => .ok ⟨[], s, none⟩
  | .letter, s, some text => Group.ofLetters s text.toList
  | .word, s, some value =>
    if s.takesValue then .ok ⟨[], s, some value⟩ else .error (.unusedValue s value)

/-- The draft with the switches of a group, the last one with this value. -/
def Draft.setGroup (d : Draft) (g : Group) (value : Option String) : Except Stop Draft := do
  let d ← g.before.foldlM (fun d s => d.set none s) d
  d.set value g.last

/-- Reads the arguments before the separator. -/
def Draft.readArguments (d : Draft) : List Argument → Except Stop Draft
  | [] => .ok d
  | .operand text :: rest => (d.place text (some text)).readArguments rest
  | .unknown text :: rest => (d.reject [text]).readArguments rest
  | .switch form s attached :: rest =>
    match Group.ofSwitch form s attached with
    | .error e => .error (.misuse e)
    | .ok g =>
      match g.attached, g.last.takesValue, rest with
      | some text, _, rest => do (← d.setGroup g (valueOf text)).readArguments rest
      | none, false, rest => do (← d.setGroup g none).readArguments rest
      | none, true, .operand text :: rest' =>
        do (← d.setGroup g (some text)).readArguments rest'
      | none, true, _ => .error (.misuse (.missingValue g.last))

/-- Reads the operands after the separator. -/
def Draft.readOperands (d : Draft) (texts : List String) : Draft :=
  let place := fun (d : Draft) text => d.place text (valueOf text)
  if d.endsPlaced then texts.foldl place d
  else
    match d.output, texts with
    | none, first :: rest => rest.foldl place (d.place first (some first))
    | _, texts => d.reject (separator :: texts)

/-- The request of a draft that has been read to the end. -/
def Draft.request (d : Draft) : Except UsageError Request :=
  match d.input, d.output with
  | none, _ => .error (.missingOperands ["input", "output"])
  | some _, none => .error (.missingOperands ["output"])
  | some input, some output =>
    if d.rejected = [] then
      .ok ⟨input, output, d.isRecursive, d.includes, d.jobs⟩
    else .error (.unrecognized d.rejected)

/-- Takes an error for the end of reading. -/
def orMisuse {α : Type} : Except UsageError α → Except Stop α
  | .ok a => .ok a
  | .error e => .error (.misuse e)

/-- Reads the request of a command line without help word. -/
def Request.ofArguments (texts : List String) : Except Stop Request := do
  let arguments ← orMisuse ((texts.takeWhile (· ≠ separator)).mapM Argument.ofText)
  let d ← Draft.readArguments {} arguments
  match texts.dropWhile (· ≠ separator) with
  | [] => orMisuse d.request
  | _ :: operands => orMisuse (d.readOperands operands).request

/-- Reads the request of a command line. -/
def Request.ofCommandLine (texts : List String) : Except Stop Request :=
  if texts.head? = some helpWord then .error .help else Request.ofArguments texts

end ProtoSdl.CommandLine
