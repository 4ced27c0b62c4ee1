import CallContract.Compiler
import CallContract.Defaults
import CallContract.Validator

/-!
# One-call validation

Compiles a specification and validates arguments with it at once, reporting to the default sink. A
label that stands for false gives way to the default label.
-/

namespace CallContract

namespace OneCall

/-- The validator of a specification, for the convention `convention` to be used with. -/
def validator (convention : Convention) (spec label : Value) : Action Validator := do
  if !spec.isMapping then
    throw (.configuration (convention.name ++ " needs parameters as a mapping") [])
  let label ← if label.truthy then pure label else (·.defaultLabel) <$> Defaults.settings
  let schema ← Compiler.run spec label
  let sink ← Defaults.sink
  return { schema, sink }

def validate (convention : Convention) (arguments spec label : Value) : Action Validator := do
  let v ← validator convention spec label
  v.run convention arguments
  return v

end OneCall

end CallContract
