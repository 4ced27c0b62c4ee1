import CallContract.Session
import CallContract.Specification
import CallContract.Validation

/-!
# The compiler

Compiling a specification under a label. The compiler checks its own arguments by a contract first,
and reports their violations as configuration errors.
-/

namespace CallContract

namespace Compiler

def contractLabel : String := "SchemaCompiler.compile"

/-- The contract of the compiler's own arguments. -/
def contract : Schema :=
  { name := .str contractLabel
    params := [.str "spec_map", .str "label"]
    required := [.str "spec_map", .str "label"]
    types := ⟨[(.str "spec_map", .primitive "object"), (.str "label", .primitive "string")]⟩
    positions := ⟨[(.str "spec_map", 0), (.str "label", 1)]⟩
    hybrids := .empty }

/-- The compiler's contract is what its own specification compiles to. -/
theorem compile_contract :
    Specification.compile (.record [("spec_map", .str "!object"), ("label", .str "!string")])
      (.str contractLabel) true = .ok contract := by rfl

/-- Checks the compiler's arguments against its contract. -/
def selfCheck (spec label : Value) : Except Failure Unit :=
  match contract.validatePositional (.list [spec, label]) with
  | .error (.contract (.violation _ message what)) =>
    .error (.contract (.configuration message what.details (some what)))
  | outcome => outcome

def compile (spec label : Value) : Except Failure Schema := do
  if let .null := label then
    refuse (contractLabel ++ " \"label\" cannot be None, did you mean an empty string instead?")
  if let .null := spec then
    refuse (contractLabel ++ " \"spec_map\" cannot be None")
  selfCheck spec label
  Specification.compile spec label true

/-- What is logged of a compiled schema. -/
def note (label : Value) (s : Schema) : Except Failure String := do
  let shownLabel ← label.literal
  let params ← Value.listLiteral s.params
  let required ← Value.listLiteral s.required
  let positions ← Value.listLiteral ((ascending s.hybrids).map fun e => .int e.1)
  return "Compiled schema " ++ shownLabel ++ " with params " ++ params ++ ", required " ++ required ++
    ", destructured positions " ++ positions

/-- Compiles a specification and logs it. -/
def run (spec label : Value) : Action Schema := do
  let s ← compile spec label
  Action.log Logger.compiler .debug (← note label s)
  return s

end Compiler

end CallContract
