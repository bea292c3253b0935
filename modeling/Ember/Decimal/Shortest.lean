/-! The fewest decimal digits that identify a binary floating-point number. A finite number is
`m * 2^q`; the reals that round to it form an interval around it, and the digits chosen are those of
the coarsest decimal grid that has a point in that interval, the nearest such point. -/
namespace Ember.Decimal
set_option autoImplicit false

/-- A finite non-negative double, `m * 2^q`. -/
structure Binary where
  m : Nat
  q : Int
  /-- The gap to the number below is half the gap to the number above. -/
  narrowBelow : Bool
  deriving DecidableEq, Repr

namespace Binary

/-- The magnitude of the finite number with these bits. -/
def ofBits (bits : UInt64) : Binary :=
  let e := ((bits >>> 52) &&& 0x7ff).toNat
  let f := (bits &&& 0xfffffffffffff).toNat
  if e == 0 then ⟨f, -1074, false⟩ else ⟨0x10000000000000 + f, (e : Int) - 1075, f == 0 && e > 1⟩

end Binary

/-- A decimal numeral, `digits * 10^exponent`. -/
structure Numeral where
  digits : Nat
  exponent : Int
  deriving DecidableEq, Repr

namespace Numeral

/-- Moves trailing zeros of the digits into the exponent. -/
def strip : Nat → Numeral → Numeral
  | 0, d => d
  | fuel + 1, d =>
    if d.digits % 10 == 0 && d.digits != 0 then strip fuel ⟨d.digits / 10, d.exponent + 1⟩ else d

end Numeral

/-- How to choose between two decimals that are equally near. -/
inductive Tie
  | up
  | toEven
  deriving DecidableEq, Repr

/-- Compares `a * 10^i` with `n * 2^j`. -/
def compareScaled (a : Nat) (i : Int) (n : Nat) (j : Int) : Ordering :=
  compare ((a * Nat.pow 10 i.toNat) <<< (-j).toNat) ((n * Nat.pow 10 (-i).toNat) <<< j.toNat)

namespace Binary

/-- Whether the decimal is one of the reals that round to `x`; the ends of the interval belong to
it exactly when `m` is even. -/
def readsBack (x : Binary) (d : Numeral) : Bool :=
  let lower := if x.narrowBelow then 4 * x.m - 1 else 4 * x.m - 2
  let low := compareScaled d.digits d.exponent lower (x.q - 2)
  let high := compareScaled d.digits d.exponent (4 * x.m + 2) (x.q - 2)
  let closed := x.m % 2 == 0
  (low == .gt || closed && low == .eq) && (high == .lt || closed && high == .eq)

/-- Raises an exponent while `10^exponent` is at most `x`, so that `x < 10^exponent` in the end. -/
def raise (x : Binary) : Nat → Int → Int
  | 0, k => k
  | fuel + 1, k => if compareScaled 1 k x.m x.q == .gt then k else raise x fuel (k + 1)

/-- The least `k` with `x < 10^k`, for `x` other than zero: the binary logarithm gives it up to two,
and exact comparisons settle the rest. -/
def scale (x : Binary) : Int :=
  raise x 4 (((Nat.log2 x.m : Int) + x.q) * 30103 / 100000 - 1)

/-- The point nearest to `x` of the grid `10^p`, of those that read back. -/
def nearestOn? (x : Binary) (tie : Tie) (p : Int) : Option Numeral :=
  let numerator := (x.m * Nat.pow 10 (-p).toNat) <<< x.q.toNat
  let denominator := Nat.pow 10 p.toNat <<< (-x.q).toNat
  let below := numerator / denominator
  let down : Numeral := ⟨below, p⟩
  let up : Numeral := ⟨below + 1, p⟩
  match x.readsBack down, x.readsBack up with
  | true, true =>
    match compare (2 * numerator) ((2 * below + 1) * denominator), tie with
    | .lt, _ => some down
    | .gt, _ => some up
    | .eq, .up => some up
    | .eq, .toEven => some (if below % 2 == 0 then down else up)
  | true, false => some down
  | false, true => some up
  | false, false => none

/-- The value itself as a decimal. -/
def exact (x : Binary) : Numeral :=
  if 0 ≤ x.q then ⟨x.m <<< x.q.toNat, 0⟩ else ⟨x.m * Nat.pow 5 (-x.q).toNat, x.q⟩

/-- The shortest decimal that reads back as `x`, without trailing zeros. -/
def shortest (x : Binary) (tie : Tie) : Numeral :=
  if x.m == 0 then ⟨0, 0⟩
  else
    let k := x.scale
    let found := (List.range 17).findSome? fun (n : Nat) => x.nearestOn? tie (k - (n + 1))
    (found.getD x.exact).strip 800

end Binary

end Ember.Decimal
