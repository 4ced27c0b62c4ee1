import CallContract.Failure
import CallContract.Table

/-!
# Signatures

The parameters of a function and how a call is laid out along them. A layout has one slot for each
parameter. Positional arguments go to the parameters from left to right, the parameter for surplus
arguments takes all that are left; keywords go to the parameters of their names, and those left over
to the parameter for extra keywords.

A partial binding leaves slots empty and refuses keywords for positional-only parameters. A call
fills empty slots with defaults and takes such keywords for extra ones.
-/

namespace CallContract

inductive ParamKind where
  | positionalOnly
  | ordinary
  /-- Takes the surplus positional arguments. -/
  | surplus
  | keywordOnly
  /-- Takes the keywords that name no parameter. -/
  | extraKeywords
deriving DecidableEq

structure Param where
  kind : ParamKind
  name : String
  default? : Option Value

abbrev Signature := List Param

/-- The keyword arguments of a call. -/
abbrev Keywords := Table String Value

/-- What a call brings for one parameter. -/
inductive Slot where
  | value (v : Value)
  | empty
  | surplus (vs : List Value)
  | keywords (kw : Keywords)

namespace Slot

def ofOption : Option Value → Slot
  | some v => .value v
  | none => .empty

/-- The positional values of a slot. An empty one holds its place with `undefined`. -/
def values : Slot → List Value
  | .value v => [v]
  | .empty => [.undefined]
  | .surplus vs => vs
  | .keywords _ => []

/-- What the function gets for the parameter. -/
def argument : Slot → Value
  | .value v => v
  | .empty => .undefined
  | .surplus vs => .tuple vs
  | .keywords kw => .record kw.entries

end Slot

namespace Signature

/-- Lays positional arguments along the parameters; `rest` lays out the parameters behind them. -/
def layPositional (rest : Signature → Keywords → Except BindingError (List Slot)) :
    Signature → List Value → Keywords → Except BindingError (List Slot)
  | ps, [], kw => rest ps kw
  | [], _ :: _, _ => .error .tooManyPositional
  | p :: ps, v :: vs, kw =>
    match p.kind with
    | .keywordOnly | .extraKeywords => .error .tooManyPositional
    | .surplus => return .surplus (v :: vs) :: (← rest ps kw)
    | .positionalOnly => return .value v :: (← layPositional rest ps vs kw)
    | .ordinary =>
      if kw.contains p.name then .error (.multipleValues p.name)
      else return .value v :: (← layPositional rest ps vs kw)

/-- Refuses the first keyword that no parameter takes. -/
def refuseLeftover (kw : Keywords) : Except BindingError (List Slot) :=
  match kw.keys with
  | [] => .ok []
  | name :: _ => .error (.unexpectedKeyword name)

/-- Lays keywords along parameters, and leaves the slots empty that they do not name. -/
def layKeywords : Signature → Keywords → Except BindingError (List Slot)
  | [], kw => refuseLeftover kw
  | p :: ps, kw =>
    match p.kind with
    | .surplus => return .surplus [] :: (← layKeywords ps kw)
    | .extraKeywords => return .keywords kw :: (← layKeywords ps .empty)
    | .positionalOnly =>
      if kw.contains p.name then .error (.positionalOnly p.name)
      else return .empty :: (← layKeywords ps kw)
    | .ordinary | .keywordOnly =>
      return .ofOption (kw.get? p.name) :: (← layKeywords ps (kw.erase p.name))

def fillDefault (p : Param) : Except BindingError Slot :=
  match p.default? with
  | some v => .ok (.value v)
  | none => .error (.missing p.name)

/-- Lays keywords along parameters, and fills the slots with defaults that they do not name. -/
def fillKeywords : Signature → Keywords → Except BindingError (List Slot)
  | [], kw => refuseLeftover kw
  | p :: ps, kw =>
    match p.kind with
    | .surplus => return .surplus [] :: (← fillKeywords ps kw)
    | .extraKeywords => return .keywords kw :: (← fillKeywords ps .empty)
    | .positionalOnly => return (← fillDefault p) :: (← fillKeywords ps kw)
    | .ordinary | .keywordOnly =>
      match kw.get? p.name with
      | some v => return .value v :: (← fillKeywords ps (kw.erase p.name))
      | none => return (← fillDefault p) :: (← fillKeywords ps kw)

/-- The layout of what a call brings, without defaults. -/
def bindPartial (sig : Signature) (args : List Value) (kw : Keywords) :
    Except BindingError (List Slot) :=
  layPositional layKeywords sig args kw

/-- The layout with which the function runs. -/
def bindCall (sig : Signature) (args : List Value) (kw : Keywords) :
    Except BindingError (List Slot) :=
  layPositional fillKeywords sig args kw

def isUndefined : Value → Bool
  | .undefined => true
  | _ => false

/-- `vs` without the `undefined` at its end. -/
def trimUndefined (vs : List Value) : List Value :=
  (vs.reverse.dropWhile isUndefined).reverse

/-- The arguments of a call in positional order. Without keywords they are as they come; otherwise
parameters left to their defaults hold their place with `undefined`, except at the end. -/
def positionalValues (sig : Signature) (args : List Value) (kw : Keywords) :
    Except BindingError (List Value) :=
  if kw.entries.isEmpty then .ok args
  else return trimUndefined ((← sig.bindPartial args kw).flatMap Slot.values)

/-- Whether every parameter has a place in positional order. A keyword-only parameter behind the
one for surplus arguments has none. -/
def hasPositionalLayout (sig : Signature) : Bool :=
  !(sig.any (·.kind = .surplus) && sig.any (·.kind = .keywordOnly))

end Signature

end CallContract
