import Ember.Decimal.Reader

/-! Reading 64-bit integers in decimal. The first character that is at fault decides the failure. -/
namespace Ember.Decimal
set_option autoImplicit false

inductive IntegerFault
  | empty
  | invalidDigit
  | tooLarge
  | tooSmall
  deriving DecidableEq, Repr

def IntegerFault.message : IntegerFault → String
  | empty => "cannot parse integer from empty string"
  | invalidDigit => "invalid digit found in string"
  | tooLarge => "number too large to fit in target type"
  | tooSmall => "number too small to fit in target type"

/-- The number that digits stand for, after `acc`, if it is at most `limit`. -/
def readMagnitude (limit : Nat) (overflow : IntegerFault) :
    Nat → List Char → Except IntegerFault Nat
  | acc, [] => .ok acc
  | acc, c :: rest =>
    if !c.isDigit then .error .invalidDigit
    else
      let next := acc * 10 + digitValue c
      if next ≤ limit then readMagnitude limit overflow next rest else .error overflow

/-- Digits after an optional sign. -/
def readInteger (s : String) : Except IntegerFault Int64 :=
  match s.toList with
  | [] => .error .empty
  | ['-'] | ['+'] => .error .invalidDigit
  | '-' :: ds =>
    (readMagnitude 9223372036854775808 .tooSmall 0 ds).map fun n => Int64.ofInt (-(n : Int))
  | '+' :: ds => (readMagnitude 9223372036854775807 .tooLarge 0 ds).map Int64.ofNat
  | ds => (readMagnitude 9223372036854775807 .tooLarge 0 ds).map Int64.ofNat

end Ember.Decimal
