import ProtoSdl.CommandLine.UsageError
import ProtoSdl.Text.Numeral

/-!
  Arguments — what each text on a command line is taken for

  A text is looked at alone, before anything is read. It is a switch, by letter or
  by word, perhaps with more text attached; an unknown switch; or an operand. What
  does not begin with a hyphen is an operand, and so are the hyphen alone, a negative
  number, and a text with a space in it that begins with no known switch.

  After its name and an equals sign every switch can have text attached; after its
  letter the equals sign may be left out. A word may be abbreviated as long as one
  switch alone can be meant.
-/

namespace ProtoSdl.CommandLine

/-- How a switch is named. -/
inductive Form where
  | letter
  | word
  deriving DecidableEq, Repr

inductive Argument where
  | operand (text : String)
  /-- A switch with the attached text. -/
  | switch (form : Form) (s : Switch) (attached : Option String)
  /-- A switch that there is not. -/
  | unknown (text : String)
  deriving DecidableEq, Repr

/-- The text before the first equals sign, and the text after it if there is one. -/
def splitEquals (text : String) : String × Option String :=
  let name := String.ofList (text.toList.takeWhile (· ≠ '='))
  match text.toList.dropWhile (· ≠ '=') with
  | [] => (name, none)
  | _ :: value => (name, some (String.ofList value))

/-- The argument that a text stands for when it names no switch. -/
def nameless (text : String) : Argument :=
  if Text.isNegativeDecimal text ∨ ' ' ∈ text.toList then .operand text else .unknown text

/-- The argument of a text after two hyphens, given by its parts around the equals
sign. -/
def classifyWord (text name : String) (value : Option String) : Except UsageError Argument :=
  match Switch.withPrefix name with
  | [] => .ok (nameless text)
  | [s] => .ok (.switch .word s value)
  | several => .error (.ambiguous text several)

/-- The argument of a text after one hyphen. -/
def classifyLetter (text name : String) (value : Option String) : Argument :=
  match Switch.ofName? name with
  | some s => .switch .letter s value
  | none =>
    match Switch.ofName? (String.ofList (text.toList.take 2)) with
    | some s => .switch .letter s (some (String.ofList (text.toList.drop 2)))
    | none => nameless text

/-- The argument that a text stands for. -/
def Argument.ofText (text : String) : Except UsageError Argument :=
  let (name, value) := splitEquals text
  if text = "-" ∨ ¬ Text.hasPrefix "-" text then .ok (.operand text)
  else if Text.hasPrefix "--" text then classifyWord text name value
  else .ok (classifyLetter text name value)

end ProtoSdl.CommandLine
