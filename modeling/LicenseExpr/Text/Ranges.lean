/-!
# Sets of code points as ranges

A table of a character property is a list of closed ranges in increasing order, with a gap between
one range and the next. `covers` looks a code point up and stops at the first range above it.
-/

namespace LicenseExpr.Text

abbrev Ranges := List (Nat × Nat)

namespace Ranges

def covers : Ranges → Nat → Bool
  | [], _ => false
  | (low, high) :: rest, n => if n < low then false else n ≤ high || covers rest n

end Ranges

end LicenseExpr.Text
