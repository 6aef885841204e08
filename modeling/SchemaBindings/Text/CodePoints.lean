/-! Sets of code points as ordered lists of closed ranges. Such a set is searched from the left and
the search stops at the first range that lies above the code point. -/

namespace SchemaBindings.Text

/-- Whether a code point lies in one of the ranges, which are disjoint and in order. -/
def inRanges : List (Nat × Nat) → Nat → Bool
  | [], _ => false
  | (first, last) :: rest, n =>
    if n < first then false else n ≤ last || inRanges rest n

end SchemaBindings.Text
