import CallContract.Number.Numeral

/-!
# Scientific form

An exact number as a quotient times a power of ten. The quotient has the factor five neither above
nor below, so every number has one form, and a power of ten takes no room.
-/

namespace CallContract

/-- The number `significand · 10 ^ exponent`. -/
structure Scientific where
  significand : Rat
  exponent : Int
deriving DecidableEq

namespace Scientific

def zero : Scientific := ⟨0, 0⟩

/-- The number of factors five of `n`, up to `bound` of them. -/
def fivesTo : Nat → Nat → Nat
  | 0, _ => 0
  | bound + 1, n => if n % 5 = 0 then fivesTo bound (n / 5) + 1 else 0

/-- The number of factors five of a positive `n`, which has fewer factors than binary digits. -/
def fives (n : Nat) : Nat := fivesTo (n.log2 + 1) n

/-- The form of `q · 10 ^ exponent`: factors five of `q` move into the power. -/
def ofRat (q : Rat) (exponent : Int) : Scientific :=
  if q.num = 0 then zero
  else
    let above := fives q.num.natAbs
    let below := fives q.den
    { significand := mkRat (q.num * Nat.pow 10 below) (q.den * Nat.pow 10 above)
      exponent := exponent + above - below }

def ofInt (n : Int) : Scientific := ofRat n 0

/-- The number that a numeral writes. -/
def ofNumeral (n : Numeral) : Scientific := ofRat (n.signed n.coefficient) n.exponent

@[simp] theorem ofRat_zero (exponent : Int) : ofRat 0 exponent = zero := rfl

end Scientific

end CallContract
