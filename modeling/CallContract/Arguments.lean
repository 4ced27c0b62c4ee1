import CallContract.Schema.Basic

/-!
# Normalised arguments

Every convention brings its raw arguments into one payload, a table from names to values: named
arguments by merging their fragments, positional ones by pairing them with the declared parameters.
-/

namespace CallContract

/-- Fails as the iteration does at its end, if it does. -/
def Stream.finish (st : Stream) : Except Failure Unit :=
  match st.failure with
  | some why => .error (.iteration why)
  | none => .ok ()

/-- All the items of a value, whether it is iterable or only gives them one by one. -/
def Value.collect (v : Value) : Except Failure (List Value) :=
  match v.collectable? with
  | none => .error (.notIterable v.fullTypeName)
  | some st => do
    st.finish
    return st.items

namespace Arguments

/-- Writes one fragment to the payload. Nothing and `undefined` are empty fragments. -/
def mergeFragment (s : Schema) (supplied : Payload) (fragment : Value) : Except Failure Payload :=
  match fragment with
  | .null | .undefined => .ok supplied
  | .mapping _ entries => .ok (supplied.insertMany entries)
  | _ => do
    let label ← s.name.display
    throw (.violation s.name
      ("Expected destructured mapping in " ++ label ++ " but got " ++ fragment.typeName ++ " instead")
      (.mismatch .null (.str "mapping") fragment))

def mergeFragments (s : Schema) (fragments : List Value) : Except Failure Payload :=
  fragments.foldlM (mergeFragment s) .empty

/-- An integer is no fragment, so what stands behind one does not count. -/
theorem mergeFragments_int (s : Schema) (n : Int) (vs : List Value) :
    mergeFragments s (.int n :: vs) = mergeFragments s [.int n] := by
  simp only [mergeFragments, List.foldlM_cons, mergeFragment]
  cases s.name.display <;> rfl

def notFragments (s : Schema) (arguments : Value) : Except Failure Payload := do
  let label ← s.name.display
  refuse ("Named arguments for " ++ label ++ " must be a mapping or a sequence of mappings, got " ++
    arguments.typeName)

/-- The first of a progression's terms, if it has one. -/
def firstTerm (start stop step : Int) : List Value :=
  if progressionLength start stop step = 0 then [] else [.int start]

/-- The first term of a progression decides what becomes of all. -/
theorem mergeFragments_progression (s : Schema) (start stop step : Int) :
    mergeFragments s ((progression start stop step).map .int) =
      mergeFragments s (firstTerm start stop step) := by
  unfold progression firstTerm
  cases progressionLength start stop step with
  | zero => rfl
  | succ n =>
    rw [List.range_succ_eq_map]
    simpa using mergeFragments_int s start _

/-- The payload of named arguments: the fragments that `arguments` yields, merged in their order. A
fragment is looked at before the next one is asked for. -/
def named (s : Schema) (arguments : Value) : Except Failure Payload :=
  match arguments with
  | .null | .undefined | .mapping _ _ => mergeFragments s [arguments]
  | .str _ | .text _ | .bytes _ => notFragments s arguments
  | .range start stop step => mergeFragments s (firstTerm start stop step)
  | _ =>
    match arguments.stream? with
    | none => notFragments s arguments
    | some st => do
      let supplied ← mergeFragments s st.items
      st.finish
      return supplied

def notValues (s : Schema) (arguments : Value) : Except Failure (List Value) := do
  let label ← s.name.display
  refuse ("Positional arguments for " ++ label ++ " must be a sequence, got " ++ arguments.typeName)

/-- The values that `arguments` yields, which has to come to its end. -/
def positionalValues (s : Schema) (arguments : Value) : Except Failure (List Value) :=
  match arguments with
  | .null => do refuse ("Pass the call arguments to validate " ++ (← s.name.display) ++ " positionally")
  | .str _ | .text _ | .bytes _ | .mapping _ _ => notValues s arguments
  | _ =>
    match arguments.stream? with
    | none => notValues s arguments
    | some st => do
      st.finish
      return st.items

/-- The payload of positional values: each declared parameter with its value, surplus values and
parameters left out. -/
def pair (s : Schema) (values : List Value) : Payload := .ofList (s.params.zip values)

end Arguments

end CallContract
