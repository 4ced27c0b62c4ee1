import CallContract.Session

/-!
# Default settings and default sink

The default settings are loaded from the environment when they are first asked for, the default
sink is built from them when it is first asked for, and both are kept until settings are set.
-/

namespace CallContract

namespace Settings

/-- Sets the variables of an environment file, up to one that cannot be set. -/
def loadFile (path? : Option String) : Action Unit := do
  let s ← get
  (s.loader s.environment path?).forM fun (name, value) => Action.setVariable name value

/-- The flag that the environment gives for a setting. -/
def flagFromEnvironment (setting : String) (default : Bool) : Action Value := do
  match (← get).environment.get? (variableName setting) with
  | none => return .bool default
  | some raw =>
    match readFlag raw with
    | .blank => return .bool default
    | .flag b => return .bool b
    | .unrecognised =>
      Action.log Logger.settings .warning (flagWarning setting raw)
      return .bool default

def labelFromEnvironment : Action Value := do
  let label := ((← get).environment.get? (variableName "DEFAULT_LABEL")).getD ""
  return .str (if label.isEmpty then standardLabel else label)

/-- Reads the settings from the environment, after loading an environment file if `load` says so. An
empty path names no file. -/
def fromEnvironment (path? : Option String) (load : Bool) : Action Settings := do
  if load then
    loadFile (path?.filter fun path => !path.isEmpty)
  let enabled ← flagFromEnvironment "ENABLED" true
  let logViolations ← flagFromEnvironment "LOG_VIOLATIONS" true
  let telemetry ← flagFromEnvironment "TELEMETRY" false
  let defaultLabel ← labelFromEnvironment
  return { enabled, logViolations, telemetry, defaultLabel }

/-- Builds the sink that the settings ask for: logging, telemetry, both in this order, or none. -/
def buildSink (s : Settings) : Action (Option SinkHandle) := do
  let logging ←
    if s.logViolations.truthy then
      some <$> SinkHandle.ofOutlet (.logging Logger.violations (.int Level.warning.rank))
    else pure none
  let telemetry ←
    if s.telemetry.truthy then some <$> SinkHandle.ofOutlet (.telemetry "arg_contracts")
    else pure none
  match logging, telemetry with
  | some l, some t => some <$> SinkHandle.ofMembers [some l, some t]
  | some l, none => return some l
  | none, t => return t

end Settings

namespace Defaults

def settings : Action Settings := do
  match (← get).settings with
  | some s => return s
  | none =>
    let s ← Settings.fromEnvironment none true
    modify ({ · with settings := some s })
    return s

/-- Sets the default settings; without any, the next use loads them from the environment. -/
def setSettings (s : Option Settings) : Action Unit :=
  modify ({ · with settings := s, sink := none })

def sink : Action (Option SinkHandle) := do
  match (← get).sink with
  | some built => return built
  | none =>
    let built ← (← settings).buildSink
    modify ({ · with sink := some built })
    return built

end Defaults

end CallContract
