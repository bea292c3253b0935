import Ember.Value.Basic

/-! Frames: the slots of one call of a function. The slots are kept in the frame itself if there are
few of them, and apart from it otherwise. A frame that is no longer used may be used again for
another call. -/
namespace Ember
set_option autoImplicit false

structure Frame where
  function : Routine Value
  /-- The cells that the running closure has captured. -/
  cells : Array CellRef
  /-- Where the caller goes on. -/
  resume : Nat
  /-- The height of the stack when the call began. -/
  base : Nat
  locals : Array Value
  /-- Whether the slots are kept apart from the frame. -/
  spilled : Bool

namespace Frame

/-- So many slots are kept in the frame itself. -/
def inlineSlots : Nat := 4

/-- Storage that has been moved out of the frame comes back only for few slots, and moves out again
for many. -/
def spills (wasSpilled : Bool) (count : Nat) : Bool :=
  let kept := if count ≤ inlineSlots && wasSpilled then false else wasSpilled
  kept || decide (inlineSlots < count)

/-- Makes a frame ready for a call in which all slots are nil. -/
def init (f : Frame) (function : Routine Value) (resume count : Nat) : Frame where
  function := function
  cells := #[]
  resume := resume
  base := 0
  locals := Array.replicate count .nil
  spilled := spills f.spilled count

/-- A frame that has not been used before. -/
def new (function : Routine Value) (resume count : Nat) : Frame :=
  init ⟨function, #[], 0, 0, #[], false⟩ function resume count

/-- Makes a frame ready for a call with the given arguments in the first slots. -/
def initWithLocals (f : Frame) (function : Routine Value) (resume : Nat) (initial : Array Value) :
    Frame :=
  let count := max function.localCount initial.size
  { f.init function resume count with
    locals := initial ++ Array.replicate (count - initial.size) .nil }

def withCells (f : Frame) (cells : Array CellRef) : Frame := { f with cells }

def setLocal (f : Frame) (slot : Nat) (v : Value) : Frame :=
  { f with locals := f.locals.setIfInBounds slot v }

/-- Forgets all values, so that an unused frame keeps none alive. -/
def release (f : Frame) : Frame := { f with cells := #[], locals := #[] }

end Frame
end Ember
