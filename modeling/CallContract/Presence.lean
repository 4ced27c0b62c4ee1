import CallContract.Failure
import CallContract.Table
import CallContract.Value.SameKey

/-!
# Presence

How a declared parameter shows up among the supplied values.
-/

namespace CallContract

inductive Presence where
  | absent
  | null
  | undefined
  | value
deriving DecidableEq

namespace Presence

def name : Presence → String
  | .absent => "absent"
  | .null => "null"
  | .undefined => "undefined"
  | .value => "value"

def ofValue? : Option Value → Presence
  | none => .absent
  | some .null => .null
  | some .undefined => .undefined
  | some _ => .value

end Presence

/-- The supplied values, by the names under which they were supplied. -/
abbrev Payload := Table Value Value

namespace Payload

def presence (supplied : Payload) (name : Value) : Presence :=
  .ofValue? (supplied.get? name)

end Payload

namespace Value

/-- Refuses what cannot be a key. -/
def requireHashable (v : Value) : Except Failure Unit :=
  match v.keyDefect? with
  | some defect => .error (.notAKey defect)
  | none => .ok ()

end Value

end CallContract
