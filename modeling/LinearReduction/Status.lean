/-!
# Basis statuses

Where a row or a column stands in a basic solution. The status of a row describes its activity.
-/

namespace LinearReduction

/-- In the basis, or outside of it for one of four reasons. -/
inductive Status where
  | basic
  /-- Outside of the basis, at its lower bound. -/
  | atLower
  /-- Outside of the basis, at its upper bound. -/
  | atUpper
  /-- Outside of the basis without a bound to be at, at zero by convention. -/
  | free
  /-- Outside of the basis, its bounds coincide. -/
  | fixed
  deriving DecidableEq, Repr

namespace Status

def isNonbasic : Status → Bool
  | .basic => false
  | .atLower | .atUpper | .free | .fixed => true

/-- Status of a value's negation: its lower bound becomes the upper bound, and the other way around. -/
def opposite : Status → Status
  | .atLower => .atUpper
  | .atUpper => .atLower
  | .basic => .basic
  | .free => .free
  | .fixed => .fixed

@[simp] theorem opposite_opposite (s : Status) : s.opposite.opposite = s := by
  cases s <;> rfl

@[simp] theorem isNonbasic_opposite (s : Status) : s.opposite.isNonbasic = s.isNonbasic := by
  cases s <;> rfl

end Status

end LinearReduction
