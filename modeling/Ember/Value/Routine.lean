import Ember.Bytecode.Instruction
import Ember.Value.Basic

/-! Functions among the constants of a function. -/
namespace Ember
namespace Routine
set_option autoImplicit false

/-- All of the code. -/
def range {ν : Type} (f : Routine ν) : CodeRange := ⟨0, f.code.size⟩

/-- The place of the constant that an instruction loads, if that is a function. -/
def loaded? (f : Routine Value) (ins : Instruction) : Option Nat :=
  match ins.op with
  | .loadConst | .loadClosure =>
    match f.constants[ins.operand 0]? with
    | some (.function _) => some (ins.operand 0)
    | _ => none
  | _ => none

theorem sizeOf_lt_of_constant {f g : Routine Value} (h : Value.function g ∈ f.constants) :
    sizeOf g < sizeOf f := by
  have h₁ : sizeOf (Value.function g) < sizeOf f.constants := Array.sizeOf_lt_of_mem h
  have h₂ : sizeOf (Value.function g) = 1 + sizeOf g := by simp
  have h₃ : sizeOf f.constants < sizeOf f := by
    cases f
    simp
    omega
  omega

theorem sizeOf_lt_of_getElem? {f g : Routine Value} {i : Nat}
    (h : f.constants[i]? = some (.function g)) : sizeOf g < sizeOf f :=
  sizeOf_lt_of_constant (Array.mem_of_getElem? h)

end Routine
end Ember
