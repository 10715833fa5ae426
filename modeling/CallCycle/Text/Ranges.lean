/-!
# Tables of character ranges

A character property beyond ASCII is a list of closed ranges of code points, in increasing order.
The tables have the properties of Unicode 17.0.
-/

namespace CallCycle.Text

/-- Whether the code point of `c` lies in one of the closed ranges. -/
def inRanges (ranges : List (Nat × Nat)) (c : Char) : Bool :=
  ranges.any fun r => r.1 ≤ c.toNat && c.toNat ≤ r.2

end CallCycle.Text
