import CallContract.Session
import CallContract.Validation

/-!
# Validators

A validator holds a schema and the sink to which it reports. It reports every validation that
accepts, and every one that ends with an error of the library itself. A sink that fails on the
report is logged and does not change the outcome.
-/

namespace CallContract

namespace Convention

/-- The convention that a value is or names. -/
def ofValue? : Value → Option Convention
  | .convention c => some c
  | .str s | .text s => ofName? s
  | _ => none

def ofValue (v : Value) : Except Failure Convention :=
  match ofValue? v with
  | some c => .ok c
  | none => do throw (.notAConvention (← v.literal))

end Convention

structure Validator where
  schema : Schema
  sink : Option SinkHandle

namespace Validator

/-- A validator of what is meant to be a schema. -/
def ofCandidate (candidate : Value ⊕ Schema) (sink : Option SinkHandle) :
    Except Failure Validator :=
  match candidate with
  | .inr schema => .ok { schema, sink }
  | .inl v => refuse ("ArgumentValidator needs a compiled Schema, got " ++ v.typeName)

def name (v : Validator) : Value := v.schema.name

def literal (v : Validator) : Except Failure String :=
  return "ArgumentValidator(schema=" ++ (← v.name.literal) ++ ")"

def failureWarning (sink : Sink) (f : Failure) : String :=
  "Validation sink " ++ sink.className ++ " failed: " ++ f.message

/-- Reports an event to the validator's sink, if it has one. -/
def report (v : Validator) (e : Event) : Action Unit :=
  match v.sink with
  | none => return ()
  | some h =>
    tryCatch (Action.record (some h) e) fun f => do
      let s ← get
      Action.log Logger.validator .warning (failureWarning (s.sinkOf (some h)) f)

/-- Validates arguments and reports the outcome. -/
def run (v : Validator) (convention : Convention) (arguments : Value) : Action Unit :=
  match v.schema.validate convention arguments with
  | .ok () => v.report (.accepted v.name convention)
  | .error (.contract e) => do
    v.report (.refused v.name convention e)
    throw (.contract e)
  | .error f => throw f

/-- Validates arguments under the convention that a value names. -/
def dispatch (v : Validator) (convention arguments : Value) : Action Unit := do
  v.run (← Convention.ofValue convention) arguments

end Validator

end CallContract
