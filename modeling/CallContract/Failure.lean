import CallContract.Environment
import CallContract.Text.Quoted
import CallContract.Value.SameKey

/-!
# Failures

How a call into the library can end other than by returning. `ContractError` is the closed family
of the library's own errors; the other failures come from outside: from a value that cannot be
shown, an iteration that breaks off, a sink that is down, a variable of the environment that cannot
be set, a call that the function itself refuses.
-/

namespace CallContract

/-- What a violation of a contract is about. -/
inductive Violation where
  /-- A violation of no particular kind, with details of its own. -/
  | unspecified (details : Value)
  /-- The required names that were not supplied. -/
  | missing (names : List Value)
  /-- A named parameter was given `undefined`. -/
  | undefinedValue (parameter : Value)
  /-- A value does not have the declared type. -/
  | mismatch (parameter expected actual : Value)
  /-- The supplied names that are not declared. -/
  | unexpected (names : List Value)
  /-- More positional values than declared parameters. -/
  | tooMany (received expected : Value)

namespace Violation

def kind : Violation → String
  | .unspecified _ => "ContractViolationError"
  | .missing _ => "MissingRequiredError"
  | .undefinedValue _ => "UndefinedValueError"
  | .mismatch _ _ _ => "TypeMismatchError"
  | .unexpected _ => "UnexpectedParameterError"
  | .tooMany _ _ => "ArityError"

def details : Violation → Value
  | .unspecified details => details
  | .missing names => .record [("missing", .list names)]
  | .undefinedValue parameter => .record [("parameter", parameter)]
  | .mismatch parameter expected actual =>
    .record [("parameter", parameter), ("expected", expected),
      ("actual_type", .str actual.typeName)]
  | .unexpected names => .record [("extras", .list names)]
  | .tooMany received expected => .record [("received", received), ("expected", expected)]

end Violation

/-- The errors of the library itself. -/
inductive ContractError where
  | general (message : String) (details : Value)
  /-- A specification or a payload that has not the right shape. `cause` is the violation of the
  compiler's own contract that the error reports, if it does. -/
  | configuration (message : String) (details : Value) (cause : Option Violation)
  /-- Arguments that violate the contract labelled `contract`. -/
  | violation (contract : Value) (message : String) (what : Violation)

namespace ContractError

def message : ContractError → String
  | .general message _ | .configuration message _ _ | .violation _ message _ => message

def kind : ContractError → String
  | .general _ _ => "ArgContractError"
  | .configuration _ _ _ => "ConfigurationError"
  | .violation _ _ what => what.kind

def details : ContractError → Value
  | .general _ details | .configuration _ details _ => details
  | .violation _ _ what => what.details

/-- The families that an error belongs to, from the widest one on. -/
def families : ContractError → List String
  | .general _ _ => ["ArgContractError"]
  | .configuration _ _ _ => ["ArgContractError", "ConfigurationError", "ValueError"]
  | .violation _ _ _ => ["ArgContractError", "ContractViolationError", "TypeError"]

end ContractError

/-- Why a call cannot be laid out along the parameters of a function. -/
inductive BindingError where
  | tooManyPositional
  | multipleValues (name : String)
  | positionalOnly (name : String)
  | unexpectedKeyword (name : String)
  | missing (name : String)

namespace BindingError

def message : BindingError → String
  | .tooManyPositional => "too many positional arguments"
  | .multipleValues name => "multiple values for argument " ++ quoted name
  | .positionalOnly name =>
    quoted name ++ " parameter is positional only, but was passed as a keyword"
  | .unexpectedKeyword name => "got an unexpected keyword argument " ++ quoted name
  | .missing name => "missing a required argument: " ++ quoted name

end BindingError

inductive Failure where
  | contract (e : ContractError)
  /-- A value refused to be shown. -/
  | unprintable (text : String)
  | iteration (why : Interruption)
  /-- A sink refused an event. -/
  | sinkDown (text : String)
  /-- A level under which nothing can be logged. -/
  | levelNotInteger
  /-- A test against a class that has no instances to test for. -/
  | untestableClass
  /-- A parameter, shown as `name`, has no entry in the table of types. -/
  | untypedParameter (name : String)
  /-- A value in place of an expected type has no description. -/
  | undescribed (v : Value)
  /-- A value was used as a key that cannot be one. -/
  | notAKey (defect : KeyDefect)
  /-- A value of the class `typeName` has no items. -/
  | notIterable (typeName : String)
  /-- There is no sink in a place for one. -/
  | absentSink
  /-- A sink of the class `className` takes no members. -/
  | notComposite (className : String)
  /-- A value, shown as `value`, names no convention. -/
  | notAConvention (value : String)
  /-- A variable of the environment cannot be set. -/
  | unsettable (defect : VariableDefect)
  | binding (e : BindingError)
  /-- The function itself does not accept the arguments. -/
  | callRefused

namespace Failure

def lacksMember (typeName member : String) : String :=
  "'" ++ typeName ++ "' object has no attribute '" ++ member ++ "'"

/-- A class is named itself; the class of the conventions takes the word for one of its members. -/
def undescribedMessage : Value → String
  | .cls .convention => "describe"
  | .cls c => "type object '" ++ c.fullName ++ "' has no attribute 'describe'"
  | v => lacksMember v.fullTypeName "describe"

def configuration (message : String) (details : List (String × Value)) : Failure :=
  .contract (.configuration message (.record details) none)

def violation (contract : Value) (message : String) (what : Violation) : Failure :=
  .contract (.violation contract message what)

def message : Failure → String
  | .contract e => e.message
  | .unprintable text | .iteration (.raised text) | .sinkDown text => text
  | .iteration .unkeepable => "more items than can be kept"
  | .iteration .uncountable => "more items than can be counted"
  | .levelNotInteger => "level must be an integer"
  | .untestableClass => "typing.Any cannot be used with isinstance()"
  | .untypedParameter name => name
  | .undescribed v => undescribedMessage v
  | .notAKey defect => defect.message
  | .notIterable typeName => "'" ++ typeName ++ "' object is not iterable"
  | .absentSink => lacksMember Value.null.fullTypeName "record"
  | .notComposite className => lacksMember className "add_sink"
  | .notAConvention value => value ++ " is not a valid Convention"
  | .unsettable defect => defect.message
  | .binding e => e.message
  | .callRefused => "the function does not accept the arguments"

end Failure

/-- Ends with a configuration error without details. -/
def refuse {α : Type} (message : String) : Except Failure α :=
  .error (.configuration message [])

end CallContract
