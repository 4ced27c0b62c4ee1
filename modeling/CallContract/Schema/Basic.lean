import CallContract.Presence
import CallContract.Value.Literal

/-!
# Schemas

A schema is the compiled contract of one callable: its parameters in positional order, the required
ones among them, and three tables, which give the expected type of each name, the position of each
name, and the nested schema of each position whose argument is destructured.

`Schema.ofTables` is the only way to make one. It refuses tables that contradict the parameter
list, but does not ask the tables to cover it; `Schema.ofParameters` writes tables that do.
-/

namespace CallContract

mutual

/-- What a declared parameter expects of its value. -/
inductive Expected where
  /-- A value that is counted under the tag of this name. -/
  | primitive (tag : String)
  | instanceOf (c : ClassName)
  | wildcard
  /-- A mapping that is destructured along a schema of its own. -/
  | bag (schema : Schema)
  /-- No expected type at all. -/
  | other (v : Value)

structure Schema where
  name : Value
  params : List Value
  required : List Value
  types : Table Value Expected
  positions : Table Value Int
  hybrids : Table Int Schema

end

/-- One declared parameter, as a specification gives it. -/
structure Parameter where
  name : Value
  position : Int
  expected : Expected
  required : Bool

namespace Schema

/-- The place of a name in the parameter list, if `index` is one. -/
def paramAt? (params : List Value) (index : Int) : Option Value :=
  if index < 0 then none else params[index.toNat]?

def hasDuplicates : List Value → Bool
  | [] => false
  | v :: vs => vs.any (v == ·) || hasDuplicates vs

/-- The names among `required` that are not among `params`. -/
def undeclared (params required : List Value) : List Value :=
  required.filter fun name => !params.any (name == ·)

/-- The entries of a position table that the parameter list contradicts. -/
def misplaced (params : List Value) (positions : Table Value Int) : List (Value × Int) :=
  positions.entries.filter fun (name, index) => !(paramAt? params index).any (name == ·)

/-- The first destructured position without a parameter. -/
def strayHybrid? (params : List Value) (hybrids : Table Int Schema) : Option Int :=
  hybrids.keys.find? fun index => (paramAt? params index).isNone

/-- Checks the tables of a schema against its parameter list, in this order: the parameters are
distinct, the required ones are among them, every destructured position has one, and the position
table gives none a wrong place. Names that cannot be keys are refused where they are looked up. -/
def checkTables (s : Schema) : Except Failure Unit := do
  s.params.forM Value.requireHashable
  if hasDuplicates s.params then
    refuse ("Duplicate parameter names in " ++ (← s.name.display))
  s.required.forM Value.requireHashable
  let stray := undeclared s.params s.required
  if !stray.isEmpty then
    refuse ("Required parameter(s) " ++ (← Value.listLiteral stray) ++ " are not declared in " ++
      (← s.name.display))
  if let some index := strayHybrid? s.params s.hybrids then
    refuse ("Destructured arg #" ++ toString index ++ " has no declared parameter in " ++
      (← s.name.display))
  if !(misplaced s.params s.positions).isEmpty then
    refuse ("Position table out of order for " ++ (← s.name.display))

def ofTables (name : Value) (params required : List Value) (types : Table Value Expected)
    (positions : Table Value Int) (hybrids : Table Int Schema) : Except Failure Schema := do
  let s := { name, params, required, types, positions, hybrids }
  s.checkTables
  return s

/-- The schema of a list of parameters in declaration order. -/
def ofParameters (name : Value) (ps : List Parameter) : Except Failure Schema :=
  ofTables name (ps.map (·.name)) ((ps.filter (·.required)).map (·.name))
    (.ofList (ps.map fun p => (p.name, p.expected)))
    (.ofList (ps.map fun p => (p.name, p.position)))
    (.ofList (ps.filterMap fun p =>
      match p.expected with
      | .bag s => some (p.position, s)
      | _ => none))

/-- The number of declared parameters. -/
def arity (s : Schema) : Nat := s.params.length

def isDeclared (s : Schema) (name : Value) : Bool := s.positions.contains name

/-- Whether a name is declared; what cannot be a key cannot be asked for. -/
def declares (s : Schema) (name : Value) : Except Failure Bool := do
  name.requireHashable
  return s.isDeclared name

/-- The literal form of a schema: its name and its parameters. -/
def literal (s : Schema) : Except Failure String :=
  return "Schema(name=" ++ (← s.name.literal) ++ ", params=" ++ (← Value.listLiteral s.params) ++
    ")"

end Schema

end CallContract
