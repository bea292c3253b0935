/-! Limits of a run, and whether code is checked before it runs. -/
namespace Ember
set_option autoImplicit false

structure Settings where
  maxCallDepth : Nat
  maxSteps : Option Nat
  maxStackSize : Nat
  /-- Whether code is checked before it runs. -/
  verify : Bool
  deriving DecidableEq, Repr

def Settings.standard : Settings := ⟨1000, none, 10000, true⟩

end Ember
