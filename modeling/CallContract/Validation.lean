import CallContract.Arguments
import CallContract.Check

/-!
# Validation

The three conventions. Named arguments are merged and checked for undeclared names and explicit
`undefined`; positional ones are paired with the parameters, `undefined` passes and their number is
checked last. Hybrid arguments are validated positionally without a look into the mappings among
them, and then each destructured position as named arguments of its nested schema, in ascending
order. The first violation ends the validation.
-/

namespace CallContract

/-- Puts a table entry in its place among entries in ascending order. -/
def insertAscending {α : Type} (e : Int × α) : List (Int × α) → List (Int × α)
  | [] => [e]
  | f :: fs => if e.1 ≤ f.1 then e :: f :: fs else f :: insertAscending e fs

/-- The entries of a table in ascending order of their keys. -/
def ascending {α : Type} (t : Table Int α) : List (Int × α) :=
  t.entries.foldr insertAscending []

namespace Schema

def validateNamed (s : Schema) (arguments : Value) : Except Failure Unit := do
  let supplied ← Arguments.named s arguments
  s.checkRequired supplied
  s.typecheck supplied true true true

/-- Validates positional values and returns them. -/
def validateValues (s : Schema) (arguments : Value) (checkBags : Bool) :
    Except Failure (List Value) := do
  let values ← Arguments.positionalValues s arguments
  let supplied := Arguments.pair s values
  s.checkRequired supplied
  s.typecheck supplied false false checkBags
  s.checkArity values.length
  return values

def validatePositional (s : Schema) (arguments : Value) : Except Failure Unit :=
  discard (s.validateValues arguments true)

/-- Validates the value at a destructured position along its nested schema. No value, null and
`undefined` are empty mappings. -/
def validateBag (s : Schema) (values : List Value) (entry : Int × Schema) : Except Failure Unit := do
  let (index, nested) := entry
  match values[index.toNat]?.getD .undefined with
  | .null | .undefined => nested.validateNamed (.list [.record []])
  | bag =>
    if bag.isMapping then nested.validateNamed (.list [bag])
    else nested.mismatch ((paramAt? s.params index).getD .null) (mappingText bag) "mapping" bag

def validateHybrid (s : Schema) (arguments : Value) : Except Failure Unit := do
  let values ← s.validateValues arguments false
  (ascending s.hybrids).forM (s.validateBag values)

def validate (s : Schema) : Convention → Value → Except Failure Unit
  | .named => s.validateNamed
  | .positional => s.validatePositional
  | .hybrid => s.validateHybrid

end Schema

end CallContract
