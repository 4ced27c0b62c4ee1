import CallContract.Text.Blank
import CallContract.Text.Quoted
import CallContract.Value.Truth

/-!
# Settings

What the outer layer asks before it validates: whether to validate at all, which sinks to report to,
and the label of a specification that is given none. A setting may hold any value, of which only
the truth counts, and the label.
-/

namespace CallContract

structure Settings where
  enabled : Value
  logViolations : Value
  telemetry : Value
  defaultLabel : Value

namespace Settings

def standardLabel : String := "<>"

def standard : Settings :=
  { enabled := .bool true, logViolations := .bool true, telemetry := .bool false,
    defaultLabel := .str standardLabel }

/-- The name of the environment variable of a setting. -/
def variableName (setting : String) : String := "ARG_CONTRACTS_" ++ setting

def trueWords : List String := ["1", "true", "yes", "on"]

def falseWords : List String := ["0", "false", "no", "off"]

/-- What the text of a flag says. -/
inductive FlagReading where
  | blank
  | flag (b : Bool)
  | unrecognised
deriving DecidableEq

/-- Reads a flag, in letters of any case and with blanks around it. -/
def readFlag (raw : String) : FlagReading :=
  let word := String.ofList ((trimBlanks raw.toList).map Char.toLower)
  if word.isEmpty then .blank
  else if trueWords.contains word then .flag true
  else if falseWords.contains word then .flag false
  else .unrecognised

/-- The warning that a text is no flag. -/
def flagWarning (setting raw : String) : String :=
  "Ignoring unrecognised value " ++ quoted raw ++ " for " ++ variableName setting

end Settings

end CallContract
