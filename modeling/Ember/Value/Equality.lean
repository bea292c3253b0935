import Ember.Value.Text

/-! Equality of values. Lists and maps are compared by what they hold, and a pair that is already
being compared counts as equal; functions, closures, builtins, libraries, resources and cells are
equal only to themselves. -/
namespace Ember
set_option autoImplicit false

namespace Value

/-- Compares two values. `pairs` are the pairs of containers that are being compared, and `inside`
compares what such a pair holds. -/
def eqWith (h : Heap) (inside : List (Container × Container) → Value → Value → Bool)
    (pairs : List (Container × Container)) : Value → Value → Bool
  | .nil, .nil => true
  | .bool a, .bool b => a == b
  | .int a, .int b => a == b
  | .float a, .float b => a == b
  | .int a, .float b => a.toFloat == b
  | .float a, .int b => b.toFloat == a
  | .str a, .str b => a == b
  | .list a, .list b =>
    a == b || pairs.contains (.list a, .list b) ||
      ((h.list a).size == (h.list b).size &&
        (Array.zip (h.list a) (h.list b)).all fun (v, w) =>
          inside ((.list a, .list b) :: pairs) v w)
  | .map a, .map b =>
    a == b || pairs.contains (.map a, .map b) ||
      ((h.map a).size == (h.map b).size &&
        (h.map a).entries.all fun (k, v) =>
          match (h.map b).get? k with
          | some w => inside ((.map a, .map b) :: pairs) v w
          | none => false)
  | .set a, .set b =>
    a == b || ((h.set a).size == (h.set b).size && (h.set a).keys.all (h.set b).contains)
  | .function f, .function g => f.id == g.id
  | .closure a _ _, .closure b _ _ => a == b
  | .builtin a f, .builtin b g => a == b && f == g
  | .library a l, .library b m => a == b && l == m
  | .result a okA v, .result b okB w => a == b || (okA == okB && eqWith h inside pairs v w)
  | .error a s, .error b t => a == b && s == t
  | .resource a, .resource b => a == b
  | .cell a, .cell b => a == b
  | _, _ => false

/-- Compares two values by at most so many steps into pairs of containers. -/
def eqWithin (h : Heap) : Nat → List (Container × Container) → Value → Value → Bool
  | 0, pairs, v, w => eqWith h (fun _ _ _ => true) pairs v w
  | steps + 1, pairs, v, w => eqWith h (eqWithin h steps) pairs v w

end Value

/-- No path that meets each pair of lists and each pair of maps once has more steps. -/
def Heap.pairBound (h : Heap) : Nat :=
  h.lists.size * h.lists.size + h.maps.size * h.maps.size + 1

/-- Whether two values are equal. -/
def Value.equal (h : Heap) (v w : Value) : Bool := v.eqWithin h h.pairBound [] w

end Ember
