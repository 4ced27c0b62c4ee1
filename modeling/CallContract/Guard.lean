import CallContract.Compiler
import CallContract.Defaults
import CallContract.Signature
import CallContract.Validator

/-!
# Guards

A guard stands in front of a function and validates every call before the body of the function runs.
It brings the arguments of a call into the layout of its convention, and leaves out the first
parameter of a method.
-/

namespace CallContract

/-- A function as its callers know it. What its body does is given with a call. -/
structure Function where
  qualname : String
  signature : Signature

namespace Function

/-- The last part of the dotted name. -/
def name (f : Function) : String := (f.qualname.splitOn ".").getLastD ""

/-- The arguments with which the body runs, by the names of the parameters. -/
def arguments (f : Function) (args : List Value) (kw : Keywords) :
    Except Failure (List (String × Value)) :=
  match f.signature.bindCall args kw with
  | .ok slots => .ok ((f.signature.map (·.name)).zip (slots.map Slot.argument))
  | .error _ => .error .callRefused

end Function

/-- How a function is to be guarded. -/
structure GuardOptions where
  spec : Value
  /-- Null stands for the name of the function. -/
  label : Value
  convention : Value
  /-- Without one the guard reports to the sink of its settings. -/
  sink : Option SinkHandle
  /-- Without any the guard goes by the default settings. -/
  settings : Option Settings
  method : Bool

structure Guard where
  function : Function
  validator : Validator
  convention : Convention
  settings : Option Settings
  method : Bool

namespace Guard

/-- The parameters that the contract speaks of. -/
def contractSignature (f : Function) (method : Bool) : Signature :=
  if method then f.signature.drop 1 else f.signature

def checkLayout (label : Value) (sig : Signature) : Except Failure Unit := do
  if !sig.hasPositionalLayout then
    refuse ((← label.display) ++ " declares keyword-only parameters after *args, which have no " ++
      "positional slot; use the named convention instead")

/-- Puts a guard in front of a function. The guard reports to the sink that is current now. -/
def enforce (f : Function) (o : GuardOptions) : Action Guard := do
  let convention ← Convention.ofValue o.convention
  let label := match o.label with | .null => .str f.qualname | label => label
  let schema ← Compiler.run o.spec label
  if convention ≠ .named then
    checkLayout schema.name (contractSignature f o.method)
  let sink ← match o.sink, o.settings with
    | some h, _ => pure (some h)
    | none, some s => s.buildSink
    | none, none => Defaults.sink
  Action.log Logger.guards .debug ("Enforcing " ++ convention.name ++ " contract " ++
    (← schema.name.literal) ++ " on " ++ f.qualname)
  return { function := f, validator := { schema, sink }, convention, settings := o.settings,
           method := o.method }

/-- Refuses positional arguments under the named convention. -/
def refusePositional (g : Guard) (received : Nat) : Action Unit := do
  let label := g.validator.name
  throw (.violation label
    ((← label.display) ++ " accepts keyword arguments only, received " ++ toString received ++
      " positional")
    (.tooMany (.int received) (.int 0)))

/-- Validates the arguments of a call. -/
def check (g : Guard) (args : List Value) (kw : Keywords) : Action Unit := do
  let args := if g.method then args.drop 1 else args
  match g.convention with
  | .named =>
    if !args.isEmpty then g.refusePositional args.length
    g.validator.run .named (.list [.record kw.entries])
  | convention =>
    match (contractSignature g.function g.method).positionalValues args kw with
    | .ok values => g.validator.run convention (.list values)
    | .error e => throw (.binding e)

def effectiveSettings (g : Guard) : Action Settings :=
  match g.settings with
  | some s => pure s
  | none => Defaults.settings

/-- Validates a call, if the settings say so, and gives the arguments the body is to run with. -/
def letThrough (g : Guard) (args : List Value) (kw : Keywords) :
    Action (List (String × Value)) := do
  let settings ← g.effectiveSettings
  if settings.enabled.truthy then
    g.check args kw
  g.function.arguments args kw

/-- Calls the guarded function, whose body does `body` with its arguments. -/
def call {α : Type} (g : Guard) (body : List (String × Value) → Action α) (args : List Value)
    (kw : Keywords) : Action α := do
  body (← g.letThrough args kw)

end Guard

end CallContract
