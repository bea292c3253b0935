import Ember.Proofs.Verify.Acceptance

/-! What is known of the stack at a place in compiled code: how many plain values the running code
has on it, and which cells it has gathered on top of them for a closure. `Admits` is the rule for
one instruction; it uses the checks of the verifier, and it stays true while the tables of the
function grow. -/
namespace Ember
set_option autoImplicit false

/-! ## Shapes -/

/-- Plain values, and above them cells that are being gathered for a closure. -/
structure Shape where
  plain : Nat
  cells : List Capture
  deriving DecidableEq, Repr

namespace Shape

/-- Plain values only. -/
def values (n : Nat) : Shape := ⟨n, []⟩

def height (s : Shape) : Nat := s.plain + s.cells.length

@[simp] theorem values_plain (n : Nat) : (values n).plain = n := rfl

end Shape

/-- Which variable a `MAKE_CELL` takes the cell of. -/
def Instruction.capture (ins : Instruction) : Capture :=
  if ins.operand 1 = 0 then .slot (ins.operand 0) else .free (ins.operand 0)

/-- How an instruction changes the shape of the stack. A function that captures variables is never
loaded as it is, and while cells are gathered nothing else happens. -/
def Moves (f : Routine Value) (ins : Instruction) (s s' : Shape) : Prop :=
  match ins.op with
  | .makeCell => s' = ⟨s.plain, s.cells ++ [ins.capture]⟩
  | .loadClosure =>
    ∃ g, f.constants[ins.operand 0]? = some (.function g) ∧
      s.cells = g.freeVariables.toList.map (·.capture) ∧ s' = .values (s.plain + 1)
  | .loadConst =>
    (∀ g, f.constants[ins.operand 0]? = some (.function g) → g.freeVariables.size = 0) ∧
      s.cells = [] ∧ s' = .values (s.plain + 1)
  | _ => s.cells = [] ∧ ins.pops ≤ s.plain ∧ s' = .values (ins.heightAfter s.plain)

/-- The instruction may stand in the function where the stack has shape `s`, and leaves `s'`. -/
structure Admits (f : Routine Value) (ins : Instruction) (s s' : Shape) : Prop where
  operands : checkOperands f ins = .ok ()
  place : checkPlace f.scope.kind ins.op = .ok ()
  moves : Moves f ins s s'

/-- A closure takes all cells that have been gathered. -/
theorem length_cells_of_loadClosure {f : Routine Value} {ins : Instruction} {s s' : Shape}
    (h : Admits f ins s s') (hop : ins.op = .loadClosure) : s.cells.length = ins.operand 1 := by
  have hmoves := h.moves
  have hops := h.operands
  simp only [Moves, hop] at hmoves
  obtain ⟨g, hg, hcells, -⟩ := hmoves
  simp only [checkOperands, hop, hg] at hops
  split at hops
  · rename_i hcount
    rw [hcells, List.length_map, Array.length_toList, hcount]
  · cases hops

/-- The height of the stack changes as the verifier computes it. -/
theorem Admits.height {f : Routine Value} {ins : Instruction} {s s' : Shape}
    (h : Admits f ins s s') : ins.pops ≤ s.height ∧ s'.height = ins.heightAfter s.height := by
  have hmoves := h.moves
  have hclosure := length_cells_of_loadClosure h
  revert hmoves hclosure
  unfold Moves Instruction.heightAfter
  split
  · rename_i hop
    rintro rfl -
    simp only [Shape.height, Instruction.pops, Instruction.pushes, hop, List.length_append,
      List.length_singleton]
    omega
  · rename_i hop
    rintro ⟨g, -, -, rfl⟩ hcount
    have := hcount hop
    simp only [Shape.height, Instruction.pops, Instruction.pushes, hop, Shape.values,
      List.length_nil]
    omega
  · rename_i hop
    rintro ⟨-, hcells, rfl⟩ -
    simp only [Shape.height, Instruction.pops, Instruction.pushes, hop, Shape.values, hcells,
      List.length_nil]
    omega
  · rintro ⟨hcells, hpops, rfl⟩ -
    simp only [Shape.height, Shape.values, hcells, List.length_nil]
    omega

/-! ## Growing tables -/

namespace Routine

/-- The tables of `g` continue those of `f`. -/
structure Extends (f g : Routine Value) : Prop where
  kind : g.scope.kind = f.scope.kind
  constants : ∀ (i : Nat) (v : Value), f.constants[i]? = some v → g.constants[i]? = some v
  names : f.names.size ≤ g.names.size
  localCount : f.localCount ≤ g.localCount
  slots : ∀ (i : Nat) (n : String), f.scope.slots[i]? = some n → g.scope.slots[i]? = some n
  free : ∀ (i : Nat) (v : FreeVariable), f.freeVariables[i]? = some v → g.freeVariables[i]? = some v

theorem Extends.refl (f : Routine Value) : Extends f f :=
  ⟨rfl, fun _ _ h => h, Nat.le_refl _, Nat.le_refl _, fun _ _ h => h, fun _ _ h => h⟩

theorem Extends.trans {f g h : Routine Value} (hfg : Extends f g) (hgh : Extends g h) :
    Extends f h where
  kind := hgh.kind.trans hfg.kind
  constants i v hv := hgh.constants i v (hfg.constants i v hv)
  names := Nat.le_trans hfg.names hgh.names
  localCount := Nat.le_trans hfg.localCount hgh.localCount
  slots i n hn := hgh.slots i n (hfg.slots i n hn)
  free i v hv := hgh.free i v (hfg.free i v hv)

end Routine

open Routine (Extends)

theorem checkOperands_mono {f g : Routine Value} {ins : Instruction} (hfg : Extends f g)
    (h : checkOperands f ins = .ok ()) : checkOperands g ins = .ok () := by
  have bound : ∀ {i m n : Nat} {e : VerifyFault}, m ≤ n →
      (if i < m then Except.ok () else Except.error e) = Except.ok () →
      (if i < n then Except.ok () else Except.error e) = Except.ok () := by
    intro i m n e hmn hi
    split at hi
    · rw [if_pos (by omega)]
    · cases hi
  have hconstants := size_le_of_getElem? hfg.constants
  have hfree := size_le_of_getElem? hfg.free
  revert h
  dsimp only [checkOperands]
  split
  · exact bound hconstants
  · intro h
    split at h
    · cases h
    · rename_i k hk
      rw [hfg.constants _ _ hk]
      exact h
    · cases h
  · exact bound hfg.names
  · exact bound hfg.names
  · exact bound hfg.names
  · exact bound hfg.names
  · exact bound hfg.names
  · exact bound hfg.names
  · exact bound hfg.localCount
  · exact bound hfg.localCount
  · exact bound hfree
  · exact bound hfree
  · intro h
    split at h
    · exact bound hfg.localCount h
    · exact bound hfree h
    · cases h
  · exact id
  · exact id

theorem Admits.mono {f g : Routine Value} {ins : Instruction} {s s' : Shape}
    (hfg : Extends f g) (h : Admits f ins s s') : Admits g ins s s' := by
  refine ⟨checkOperands_mono hfg h.operands, by rw [hfg.kind]; exact h.place, ?_⟩
  have hops := h.operands
  have hmoves := h.moves
  revert hmoves
  unfold Moves
  split
  · exact id
  · rintro ⟨k, hk, hrest⟩
    exact ⟨k, hfg.constants _ _ hk, hrest⟩
  · rename_i hop
    rintro ⟨hfree, hrest⟩
    refine ⟨fun k hk => ?_, hrest⟩
    -- the constant was there before, and has not changed
    simp only [checkOperands, hop] at hops
    split at hops
    · rename_i hlt
      have hv := Array.getElem?_eq_getElem hlt
      rw [hfg.constants _ _ hv] at hk
      exact hfree k (by rw [hv, hk])
    · cases hops
  · exact id

end Ember
