import CallContract.Failure

/-!
# Events and observations

An event is the outcome of one validation as it is reported to a sink. What reporting leaves behind
is a list of observations: log records, events received by a recorder, counter and span entries.
-/

namespace CallContract

structure Event where
  contract : Value
  convention : Convention
  passed : Bool
  kind : Option String
  message : String

namespace Event

def accepted (contract : Value) (convention : Convention) : Event :=
  { contract, convention, passed := true, kind := none, message := "" }

def refused (contract : Value) (convention : Convention) (e : ContractError) : Event :=
  { contract, convention, passed := false, kind := some e.kind, message := e.message }

end Event

/-- What a counter or span entry is labelled with. -/
structure Attributes where
  service : String
  contract : Value
  convention : Convention
  errorType : Option String
  errorMessage : Option String

namespace Attributes

def toList (a : Attributes) : List (String × Value) :=
  [("service.name", .str a.service), ("contract.name", a.contract),
    ("validation.convention", .str a.convention.name)] ++
  (a.errorType.toList.map fun s => ("error.type", .str s)) ++
  (a.errorMessage.toList.map fun s => ("error.message", .str s))

end Attributes

/-- The level of a log record. -/
inductive Level where
  | number (n : Int)
  /-- A flag in place of a number. -/
  | flag (b : Bool)
deriving DecidableEq

namespace Level

/-- The number that a level counts as. -/
def rank : Level → Int
  | .number n => n
  | .flag b => if b then 1 else 0

def debug : Level := .number 10

def info : Level := .number 20

def warning : Level := .number 30

end Level

inductive Observation where
  | logged (logger : String) (level : Level) (text : String)
  | received (recorder : String) (e : Event)
  | counterCreated (meter name unit description : String)
  | counted (counter : String) (amount : Nat) (attributes : Attributes)
  | spanEvent (name : String) (attributes : Attributes)

namespace Logger

/-- The names of the loggers that the library writes to. -/
def compiler : String := "arg_contracts.language.compiler"

def validator : String := "arg_contracts.validators.argument_validator"

def guards : String := "arg_contracts.decorators"

def settings : String := "arg_contracts.config"

def telemetry : String := "arg_contracts.utils.telemetry"

/-- The logger of a logging sink that is given none. -/
def violations : String := "arg_contracts.violations"

/-- The name of a logger as records show it: the one without a name is the root. -/
def shownName (name : String) : String := if name.isEmpty then "root" else name

end Logger

end CallContract
