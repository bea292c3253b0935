import Ember.Decimal.Shortest

/-! The exact remainder of a division of doubles, with the sign of the dividend. -/
namespace Ember.Decimal
set_option autoImplicit false

/-- The remainder of two finite magnitudes, `m * 2^q` for the lesser of the two `q`. -/
def Binary.mod (x y : Binary) : Nat × Int :=
  let q := min x.q y.q
  ((x.m <<< (x.q - q).toNat) % (y.m <<< (y.q - q).toNat), q)

/-- The remainder of `x / y` truncated toward zero. -/
def fmod (x y : Float) : Float :=
  if x.isNaN || y.isNaN || x.isInf || y == 0 then 0 / 0
  else if y.isInf then x
  else
    let (m, q) := (Binary.ofBits x.toBits).mod (Binary.ofBits y.toBits)
    let magnitude := (Float.ofNat m).scaleB q
    if x.toBits >>> 63 == 1 then -magnitude else magnitude

end Ember.Decimal
