import CallContract.Convention
import CallContract.Value.ClassName

/-!
# Values

The values that calls pass and that specifications are written in. A number that is neither an
integer nor a fraction is kept as it is written. What can be told apart by identity alone carries a
number of its own, `ref`, which nothing else has. What is written like a number belongs there too,
because it need not be one.
-/

namespace CallContract

structure Date where
  year : Nat
  month : Nat
  day : Nat
deriving DecidableEq

structure DateTime where
  date : Date
  hour : Nat
  minute : Nat
  second : Nat
  microsecond : Nat
deriving DecidableEq

/-- The kinds of mapping, which differ in their class and in how they are shown. -/
inductive MappingKind where
  | dict
  | ordered
  | proxy
  | env
  | bag
deriving DecidableEq

/-- The classes whose instances are told apart by identity. -/
inductive Species where
  | animal
  | dog
  | caller
  | looper
  | hollow
  | mute
deriving DecidableEq

inductive Value where
  | null
  /-- Stands for a parameter that is there but was never given a value. -/
  | undefined
  | bool (b : Bool)
  | int (n : Int)
  /-- An integer of the class `Count`. -/
  | count (n : Int)
  | float (ref : Nat) (written : String)
  | complex (ref : Nat) (written : String)
  | decimal (ref : Nat) (written : String)
  | fraction (q : Rat)
  | str (s : String)
  /-- A text of the class `Text`. -/
  | text (s : String)
  | bytes (data : List UInt8)
  | bytearray (data : List UInt8)
  | list (items : List Value)
  /-- A list of the class `Stack`. -/
  | stack (items : List Value)
  | tuple (items : List Value)
  | point (x y : Value)
  | set (items : List Value)
  | frozenset (items : List Value)
  | range (start stop step : Int)
  /-- Yields `items` and then fails with the text `failure`, if there is one. -/
  | generator (ref : Nat) (items : List Value) (failure : Option String)
  | mapping (kind : MappingKind) (entries : List (Value × Value))
  | datetime (t : DateTime)
  | date (d : Date)
  | cls (c : ClassName)
  | builtin (name : String)
  | function (ref : Nat) (name : String)
  | creature (ref : Nat) (species : Species) (text : String)
  | convention (c : Convention)

namespace Value

/-- A mapping of the plain kind from texts. -/
def record (fields : List (String × Value)) : Value :=
  .mapping .dict (fields.map fun (k, v) => (.str k, v))

/-- A function without a name of its own. -/
def lambda (ref : Nat) : Value := .function ref "<lambda>.<locals>.<lambda>"

end Value

end CallContract
