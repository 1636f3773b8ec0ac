import ProtoSdl.CommandLine.Switch
import ProtoSdl.Text.Quoted

/-!
  Usage errors — what can be wrong with a command line
-/

namespace ProtoSdl.CommandLine

inductive UsageError where
  /-- The beginning of a word is that of several switches. -/
  | ambiguous (argument : String) (switches : List Switch)
  /-- A switch has no value. -/
  | missingValue (s : Switch)
  /-- A switch that takes no value has one. -/
  | unusedValue (s : Switch) (value : String)
  /-- The value of a switch is no number. -/
  | notANumber (s : Switch) (value : String)
  /-- These operands are missing. -/
  | missingOperands (names : List String)
  /-- These arguments have no meaning. -/
  | unrecognized (arguments : List String)
  deriving DecidableEq, Repr

/-- The text of an error about one switch. -/
def aboutSwitch (s : Switch) (text : String) : String := "argument " ++ s.label ++ ": " ++ text

/-- The text that tells a user of the error. -/
def UsageError.message : UsageError → String
  | ambiguous argument switches =>
    "ambiguous option: " ++ argument ++ " could match " ++
      ", ".intercalate (switches.map Switch.long)
  | missingValue s => aboutSwitch s "expected one argument"
  | unusedValue s value => aboutSwitch s ("ignored explicit argument " ++ Text.quoted value)
  | notANumber s value => aboutSwitch s ("invalid int value: " ++ Text.quoted value)
  | missingOperands names =>
    "the following arguments are required: " ++ ", ".intercalate names
  | unrecognized arguments => "unrecognized arguments: " ++ " ".intercalate arguments

end ProtoSdl.CommandLine
