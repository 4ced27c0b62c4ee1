import CallContract.Schema.Basic

/-!
# Descriptions

A schema as plain data, each expected type in words.
-/

namespace CallContract

structure Description where
  name : Value
  params : List (Value × String)
  required : List Value
  hybrids : List (Int × Description)

namespace Expected

def describe : Expected → Except Failure String
  | .primitive tag => .ok tag
  | .instanceOf c => .ok ("instance of " ++ c.name)
  | .wildcard => .ok Tag.any.name
  | .bag s => return "destructured mapping (" ++ (← s.name.display) ++ ")"
  | .other v => .error (.undescribed v)

end Expected

namespace Schema

/-- The expected type of a declared parameter. -/
def expected (s : Schema) (name : Value) : Except Failure Expected :=
  match s.types.get? name with
  | some e => .ok e
  | none => do throw (.untypedParameter (← name.literal))

def describeParams (s : Schema) : Except Failure (List (Value × String)) :=
  s.params.mapM fun name => return (name, ← (← s.expected name).describe)

mutual

def describe : Schema → Except Failure Description
  | s@{ hybrids := ⟨entries⟩, .. } => do
    let params ← s.describeParams
    return { name := s.name, params, required := s.required, hybrids := ← describeEntries entries }

def describeEntries : List (Int × Schema) → Except Failure (List (Int × Description))
  | [] => .ok []
  | (index, s) :: rest => return (index, ← s.describe) :: (← describeEntries rest)

end

end Schema

end CallContract
