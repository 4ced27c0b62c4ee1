import CallContract.Number.Scientific

/-!
# Extended numbers

The exact value of a written real or complex number. A number that is not one (a NaN) has no value.
-/

namespace CallContract

/-- A finite number or one of the two infinities. -/
inductive Extended where
  | finite (x : Scientific)
  | infinite (negative : Bool)
deriving DecidableEq

namespace Extended

def zero : Extended := .finite .zero

def ofInt (n : Int) : Extended := .finite (.ofInt n)

def ofRat (q : Rat) : Extended := .finite (.ofRat q 0)

/-- The number written after an optional sign, where `infinity` is the word for an infinity and
`number` reads anything else. -/
def read? (infinity : String) (number : List Char → Option Scientific) (cs : List Char) :
    Option Extended :=
  let (negative, unsigned) := Numeral.splitSign cs
  if unsigned = infinity.toList then some (.infinite negative)
  else (number cs).map .finite

/-- A floating-point number. -/
def ofDouble? (cs : List Char) : Option Extended :=
  read? "inf" (fun cs => (Numeral.read? cs).map fun n => .ofRat n.toDouble 0) cs

/-- A decimal number. -/
def ofDecimal? (s : String) : Option Extended :=
  read? "Infinity" (fun cs => (Numeral.read? cs).map Scientific.ofNumeral) s.toList

/-- Splits a reversed sum in front of its last term, which starts at the last sign that belongs to
no exponent. `term` is what has been read of that term. -/
def splitLastTerm : List Char → List Char → List Char × List Char
  | [], term => ([], term)
  | c :: rest, term =>
    if (c == '+' || c == '-') && !(rest.head?.any Numeral.isExponentMark) then
      (rest.reverse, c :: term)
    else splitLastTerm rest (c :: term)

/-- The real and the imaginary part of a complex number such as `(1-2j)` or `3j`. -/
def ofComplex? (s : String) : Option (Extended × Extended) := do
  let body := s.toList.filter fun c => c != '(' && c != ')' && c != 'j'
  let (re, im) := splitLastTerm body.reverse []
  let re ← if re.isEmpty then some zero else ofDouble? re
  return (re, ← ofDouble? im)

end Extended

end CallContract
