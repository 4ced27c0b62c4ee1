/-!
# Decimal numerals

A numeral as it is written, and the double that it stands for: the number that it writes, rounded to
the nearest one with a 53-bit significand.
-/

namespace CallContract

/-- The numeral `coefficient · 10 ^ exponent`, negated if `negative`. -/
structure Numeral where
  negative : Bool
  coefficient : Nat
  exponent : Int
deriving DecidableEq

namespace Numeral

/-- The optional sign in front of `cs`, and what follows it. -/
def splitSign : List Char → Bool × List Char
  | '-' :: cs => (true, cs)
  | '+' :: cs => (false, cs)
  | cs => (false, cs)

def readNat? (cs : List Char) : Option Nat :=
  if cs.isEmpty || !cs.all Char.isDigit then none
  else some (cs.foldl (fun n c => 10 * n + (c.toNat - '0'.toNat)) 0)

def readInt? (cs : List Char) : Option Int :=
  let (negative, digits) := splitSign cs
  (readNat? digits).map fun n => if negative then -(n : Int) else n

def isExponentMark (c : Char) : Bool := c == 'e' || c == 'E'

/-- Reads digits with an optional point among them and an optional exponent behind them. -/
def read? (cs : List Char) : Option Numeral := do
  let (negative, cs) := splitSign cs
  let significand := cs.takeWhile fun c => !isExponentMark c
  let whole := significand.takeWhile fun c => c != '.'
  let fraction := (significand.drop whole.length).drop 1
  let coefficient ← readNat? (whole ++ fraction)
  let exponent ← match cs.drop significand.length with
    | [] => some 0
    | _ :: digits => readInt? digits
  return { negative, coefficient, exponent := exponent - fraction.length }

def signed (n : Numeral) (magnitude : Rat) : Rat :=
  if n.negative then -magnitude else magnitude

/-- The magnitude of `n` as a quotient of natural numbers. -/
def quotient (n : Numeral) : Nat × Nat :=
  match n.exponent with
  | .ofNat e => (n.coefficient * Nat.pow 10 e, 1)
  | .negSucc e => (n.coefficient, Nat.pow 10 (e + 1))

end Numeral

/-- `num / den` rounded to a natural number, a half to the even neighbour. -/
def roundHalfEven (num den : Nat) : Nat :=
  let q := num / den
  let r := num % den
  if 2 * r < den then q else if den < 2 * r then q + 1 else q + q % 2

/-- `num / den / 2 ^ e` as a quotient of natural numbers. -/
def scaledQuotient (num den : Nat) : Int → Nat × Nat
  | .ofNat e => (num, den * Nat.pow 2 e)
  | .negSucc e => (num * Nat.pow 2 (e + 1), den)

/-- The exponent of the last place of a 53-bit significand for `num / den`, which is never below
that of the least positive double. -/
def lastPlace (num den : Nat) : Int :=
  let e := (num.log2 : Int) - den.log2 - 53
  let (a, b) := scaledQuotient num den e
  max (-1074) (if Nat.pow 2 53 ≤ a / b then e + 1 else e)

/-- The double nearest to `num / den`. -/
def nearestDouble (num den : Nat) : Rat :=
  let e := lastPlace num den
  let (a, b) := scaledQuotient num den e
  match e with
  | .ofNat k => mkRat (roundHalfEven a b * Nat.pow 2 k : Nat) 1
  | .negSucc k => mkRat (roundHalfEven a b) (Nat.pow 2 (k + 1))

/-- The double that `n` stands for. -/
def Numeral.toDouble (n : Numeral) : Rat :=
  n.signed (nearestDouble n.quotient.1 n.quotient.2)

end CallContract
