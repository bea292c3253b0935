import Ember.Bytecode.Instruction

/-! Pieces of code that are put together. Jumps count from their own end, so a piece means the same
wherever it stands; a way out of a loop that is still open is a hole of the size of a jump, which is
filled when the loop is closed. -/
namespace Ember
set_option autoImplicit false

inductive LoopExit
  | break
  | continue
  deriving DecidableEq, Repr

inductive Item
  | op (ins : Instruction)
  /-- A jump to the end of the loop, or to its condition, that is yet to be aimed. -/
  | hole (exit : LoopExit)
  deriving DecidableEq, Repr

/-- A forward jump over `distance` bytes. -/
def jumpOver (op : Opcode) (distance : Nat) : Item := .op ⟨op, [distance]⟩

namespace Item

def size : Item → Nat
  | op ins => ins.size
  | hole _ => Opcode.size .jumpForward

/-- A hole is written as a jump over nothing. -/
def encode : Item → List UInt8
  | op ins => ins.encode
  | hole _ => Instruction.encode ⟨.jumpForward, [0]⟩

end Item

abbrev Fragment : Type := Array Item

namespace Fragment

/-- The number of bytes that the piece takes. -/
def byteSize (f : Fragment) : Nat := f.foldl (fun n item => n + item.size) 0

def encode (f : Fragment) (code : Array UInt8) : Array UInt8 :=
  f.foldl (fun code item => item.encode.foldl Array.push code) code

/-- Aims the holes of the body of a loop. The condition follows the body, whose size is `body`, and
the loop ends `tail` bytes after that. -/
def closeLoop (f : Fragment) (body tail : Nat) : Fragment :=
  (f.foldl (fun (acc : Fragment × Nat) item =>
    let next := acc.2 + item.size
    let item := match item with
      | .op ins => .op ins
      | .hole .break => jumpOver .jumpForward (body + tail - next)
      | .hole .continue => jumpOver .jumpForward (body - next)
    (acc.1.push item, next)) (#[], 0)).1

end Fragment

end Ember
