/-!
# Calling conventions

How the arguments of a call are laid out: as named fragments, by position, or by position with
mappings among them that are destructured.
-/

namespace CallContract

inductive Convention where
  | named
  | positional
  | hybrid
deriving DecidableEq

namespace Convention

def all : List Convention := [.named, .positional, .hybrid]

theorem mem_all (c : Convention) : c ∈ all := by cases c <;> decide

def name : Convention → String
  | .named => "named"
  | .positional => "positional"
  | .hybrid => "hybrid"

/-- The member name under which the convention is shown in full. -/
def memberName : Convention → String
  | .named => "Convention.NAMED"
  | .positional => "Convention.POSITIONAL"
  | .hybrid => "Convention.HYBRID"

def ofName? (s : String) : Option Convention := all.find? fun c => c.name == s

theorem ofName?_name (c : Convention) : ofName? c.name = some c := by cases c <;> rfl

end Convention

end CallContract
