/-! Sets of code points given by their boundaries: a sorted array that alternates between the first
point inside an interval and the first point after it. -/
namespace Ember.Text
set_option autoImplicit false

/-- How many entries of `bounds` between positions `low` and `high` are at most `c`, when the array
is sorted and the answer is known to lie between `low` and `high`. -/
def countUpTo (bounds : Array Nat) (c low high : Nat) : Nat :=
  if low < high then
    let middle := (low + high) / 2
    if bounds.getD middle 0 ≤ c then countUpTo bounds c (middle + 1) high
    else countUpTo bounds c low middle
  else low
termination_by high - low

/-- Whether `c` lies in one of the intervals: an odd number of boundaries is at most `c`. -/
def inIntervals (bounds : Array Nat) (c : Char) : Bool :=
  countUpTo bounds c.toNat 0 bounds.size % 2 == 1

end Ember.Text
