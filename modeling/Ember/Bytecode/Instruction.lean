import Ember.Operator
import Ember.Bytecode.Opcode

/-! Instructions as bytes. An instruction is its opcode byte followed by its operands, each an
unsigned big-endian number of a fixed width. `Instruction.encode` drops what does not fit a width;
`decode` reads one instruction back, and `Sweep` reads a whole stretch of code. -/
namespace Ember
set_option autoImplicit false

/-! ## Big-endian numbers -/

/-- The last `width` base-256 digits of a number, most significant first. -/
def bigEndian : Nat → Nat → List UInt8
  | 0, _ => []
  | width + 1, value => UInt8.ofNat (value / Nat.pow 256 width) :: bigEndian width value

/-- The number that `width` bytes of `code` from `pos` on stand for. -/
def readBigEndian (code : Array UInt8) (pos : Nat) : Nat → Nat
  | 0 => 0
  | width + 1 => readBigEndian code pos width * 256 + (code.getD (pos + width) 0).toNat

@[simp] theorem length_bigEndian (width value : Nat) : (bigEndian width value).length = width := by
  induction width with
  | zero => rfl
  | succ width ih => simp [bigEndian, ih]

/-! ## Instructions -/

structure Instruction where
  op : Opcode
  operands : List Nat
  deriving DecidableEq, Repr, Inhabited

namespace Instruction

/-- The operand at a position, zero where there is none. -/
def operand (ins : Instruction) (i : Nat) : Nat := ins.operands.getD i 0

def size (ins : Instruction) : Nat := ins.op.size

/-- Where a jump at `offset` goes: operands count from the end of the instruction. There is no
target before the start of the code. -/
def target? (ins : Instruction) (offset : Nat) : Option Nat :=
  if ins.op.isJump then
    let next := offset + ins.size
    if ins.op.isBackward then
      if ins.operand 0 ≤ next then some (next - ins.operand 0) else none
    else some (next + ins.operand 0)
  else none

/-- One number per width; missing operands are zero and surplus ones are left out. -/
def encodeOperands : List Nat → List Nat → List UInt8
  | [], _ => []
  | width :: widths, [] => bigEndian width 0 ++ encodeOperands widths []
  | width :: widths, value :: values => bigEndian width value ++ encodeOperands widths values

def encode (ins : Instruction) : List UInt8 :=
  ins.op.byte :: encodeOperands ins.op.widths ins.operands

theorem size_pos (ins : Instruction) : 0 < ins.size := ins.op.size_pos

theorem length_encodeOperands (widths values : List Nat) :
    (encodeOperands widths values).length = operandBytes widths := by
  induction widths generalizing values with
  | nil => rfl
  | cons width widths ih => cases values <;> simp [encodeOperands, operandBytes, ih]

@[simp] theorem length_encode (ins : Instruction) : ins.encode.length = ins.size := by
  simp [encode, length_encodeOperands, size, Opcode.size, Nat.add_comm]

end Instruction

/-! ## Decoding -/

inductive DecodeError
  | unknownOpcode (offset : Nat) (byte : UInt8)
  | truncated (offset : Nat) (op : Opcode) (available : Nat)
  | invalidOperator (offset : Nat) (op : Opcode) (selector : Nat)
  | outOfBounds (offset size : Nat)
  deriving DecidableEq, Repr

namespace DecodeError

def hexByte (b : UInt8) : String :=
  String.ofList [Nat.digitChar (b.toNat / 16), Nat.digitChar (b.toNat % 16)]

def message : DecodeError → String
  | unknownOpcode offset byte => s!"unknown opcode 0x{hexByte byte} at offset {offset}"
  | truncated offset op available =>
    let name := op.mnemonic
    let needed := op.size - 1
    s!"truncated {name} at offset {offset}: needs {needed} bytes, {available} available"
  | invalidOperator offset op selector =>
    let name := op.mnemonic
    s!"invalid operator {selector} for {name} at offset {offset}"
  | outOfBounds offset size => s!"instruction pointer {offset} is outside the code ({size} bytes)"

end DecodeError

/-- The operands of the given widths that start at `pos`. -/
def readOperands (code : Array UInt8) : Nat → List Nat → List Nat
  | _, [] => []
  | pos, width :: widths => readBigEndian code pos width :: readOperands code (pos + width) widths

/-- Whether a selector operand, where the opcode has one, names an operator. -/
def Instruction.hasOperator (ins : Instruction) : Bool :=
  match ins.op with
  | .binaryOp => (BinaryOperator.ofSelector? (ins.operand 0)).isSome
  | .compareOp => (Comparison.ofSelector? (ins.operand 0)).isSome
  | _ => true

/-- The instruction that starts at `pos`. -/
def decode (code : Array UInt8) (pos : Nat) : Except DecodeError Instruction :=
  match code[pos]? with
  | none => .error (.outOfBounds pos code.size)
  | some byte =>
    match Opcode.ofByte? byte with
    | none => .error (.unknownOpcode pos byte)
    | some op =>
      if pos + op.size ≤ code.size then
        let ins : Instruction := ⟨op, readOperands code (pos + 1) op.widths⟩
        if ins.hasOperator then .ok ins
        else .error (.invalidOperator pos op (ins.operand 0))
      else .error (.truncated pos op (code.size - pos - 1))

/-! ## Linear decoding -/

/-- A stretch of code, from its first offset to the one after its last. -/
structure CodeRange where
  start : Nat
  stop : Nat
  deriving DecidableEq, Repr

def CodeRange.contains (r : CodeRange) (offset : Nat) : Bool :=
  decide (r.start ≤ offset) && decide (offset < r.stop)

/-- What reading code from front to back gives: the instructions with their offsets, and the fault
that ended it early, if any. -/
structure Sweep where
  instructions : Array (Nat × Instruction)
  fault : Option DecodeError
  deriving Repr

def Sweep.go (code : Array UInt8) (pos : Nat) (found : Array (Nat × Instruction)) : Sweep :=
  if pos < code.size then
    match decode code pos with
    | .ok ins => go code (pos + ins.size) (found.push (pos, ins))
    | .error fault => ⟨found, some fault⟩
  else ⟨found, none⟩
termination_by code.size - pos
decreasing_by have := ins.size_pos; omega

def Sweep.of (code : Array UInt8) : Sweep := Sweep.go code 0 #[]

end Ember
