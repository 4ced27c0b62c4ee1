import CallContract.Value.Kind

/-!
# Iteration

What a value yields when it is iterated. Iterating a generator can fail after its last item, and a
progression can be too long.
-/

namespace CallContract

/-- Why an iteration ends before its time. -/
inductive Interruption where
  /-- A generator broke off with this text. -/
  | raised (text : String)
  /-- There are more items than can be kept. -/
  | unkeepable
  /-- There are even more items than can be counted. -/
  | uncountable

/-- The items that an iteration yields, and how it fails after them, if it does. -/
structure Stream where
  items : List Value
  failure : Option Interruption

/-- The number of terms of the progression from `start` up or down to `stop`, which is left out. -/
def progressionLength (start stop step : Int) : Nat :=
  if 0 < step then ((stop - start + step - 1) / step).toNat
  else if step < 0 then ((start - stop - step - 1) / (-step)).toNat
  else 0

def progression (start stop step : Int) : List Int :=
  (List.range (progressionLength start stop step)).map fun i : Nat => start + step * i

/-- How many items can be kept. -/
def keptLimit : Nat := Nat.pow 2 32

/-- How many items can be counted. -/
def countedLimit : Nat := Nat.pow 2 63 - 1

/-- How the iteration of that many items fails, if it does. -/
def interruptionOf? (length : Nat) : Option Interruption :=
  if countedLimit < length then some .uncountable
  else if keptLimit < length then some .unkeepable
  else none

def characters (s : String) : List Value :=
  s.toList.map fun c => .str (String.singleton c)

namespace Value

/-- What a value yields. Of a progression that is too long to be kept that is nothing. -/
def items? : Value → Option (List Value)
  | .str s | .text s => some (characters s)
  | .bytes data | .bytearray data => some (data.map fun b => .int b.toNat)
  | .list items | .stack items | .tuple items | .set items | .frozenset items => some items
  | .point x y => some [x, y]
  | .range start stop step =>
    some (if keptLimit < progressionLength start stop step then []
      else (progression start stop step).map .int)
  | .generator _ items _ => some items
  | .mapping _ entries => some (entries.map Prod.fst)
  | .cls .convention => some (Convention.all.map .convention)
  | .creature _ .looper s => some (characters s)
  | _ => none

/-- How the iteration of a value fails after its items, if it does. -/
def interruption? : Value → Option Interruption
  | .generator _ _ failure => failure.map .raised
  | .range start stop step => interruptionOf? (progressionLength start stop step)
  | _ => none

/-- The iteration of a value, if it can be iterated. -/
def stream? (v : Value) : Option Stream :=
  v.items?.map fun items => { items, failure := v.interruption? }

/-- The items of a value that need not be iterable: a hollow creature only gives them one by one. -/
def collectable? (v : Value) : Option Stream :=
  match v with
  | .creature _ .hollow s => some { items := characters s, failure := none }
  | _ => v.stream?

/-- What is left of a value whose items have been collected: a generator gives them once. -/
def drained : Value → Value
  | .generator ref _ _ => .generator ref [] none
  | v => v

/-- The iterable values are the instances of the class of that name. -/
theorem isInstance_iterable (v : Value) : v.isInstance .iterable = v.stream?.isSome := by
  cases v with
  | mapping kind _ => cases kind <;> rfl
  | cls c => cases c <;> rfl
  | creature _ species _ => cases species <;> rfl
  | _ => rfl

end Value

end CallContract
