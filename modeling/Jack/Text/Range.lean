/-!
# Ranges of code points

A class of characters is kept as an ascending list of closed ranges of code
points.  Membership stops at the first range that lies above the code point.
-/

namespace Jack
namespace Text

def inRanges : List (Nat × Nat) -> Nat -> Bool
  | [], _ => false
  | (low, high) :: rest, n =>
      if n < low then false else decide (n <= high) || inRanges rest n

end Text
end Jack
