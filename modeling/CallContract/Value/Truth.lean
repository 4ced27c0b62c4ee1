import CallContract.Number.Extended
import CallContract.Value.Stream

/-!
# Truth of a value

A value stands for false when it is nothing, zero or empty.
-/

namespace CallContract

namespace Value

def truthy : Value → Bool
  | .null | .undefined => false
  | .bool b => b
  | .int n | .count n => n != 0
  | .float _ s => Extended.ofDouble? s.toList != some .zero
  | .complex _ s => Extended.ofComplex? s != some (.zero, .zero)
  | .decimal _ s => Extended.ofDecimal? s != some .zero
  | .fraction q => q.num != 0
  | .str s | .text s => !s.isEmpty
  | .bytes data | .bytearray data => !data.isEmpty
  | .list items | .stack items | .tuple items | .set items | .frozenset items => !items.isEmpty
  | .range start stop step => progressionLength start stop step != 0
  | .mapping _ entries => !entries.isEmpty
  | _ => true

/-- The value, or `other` in place of one that stands for false. -/
def orElse (v other : Value) : Value := if v.truthy then v else other

end Value

end CallContract
