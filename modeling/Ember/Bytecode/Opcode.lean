/-! The opcodes of the machine: the byte that encodes each, its mnemonic, and the widths in bytes of
the operands that follow it. -/
namespace Ember
set_option autoImplicit false

/-- How many bytes operands of these widths take. -/
def operandBytes (widths : List Nat) : Nat := widths.foldr (fun width total => width + total) 0

inductive Opcode
  | nop | halt | popTop | print
  | pushNil | pushTrue | pushFalse | loadConst
  | loadFast | storeFast | loadGlobal | storeGlobal | loadName | storeName
  | loadFree | storeFree | makeCell | loadClosure
  | buildList | buildMap | buildSet | binarySubscr | storeSubscr | deleteSubscr | loadAttr
  | storeAttr
  | binaryOp | compareOp | unaryNegative | unaryNot | unaryInvert | unaryPositive
  | jumpForward | jumpBackward | popJumpForwardIfTrue | popJumpForwardIfFalse
  | popJumpBackwardIfTrue | popJumpBackwardIfFalse
  | call | returnValue
  deriving DecidableEq, Repr, Inhabited

namespace Opcode

/-- Every opcode; the position of each is its byte. -/
def all : Array Opcode := #[
  nop, halt, popTop, print,
  pushNil, pushTrue, pushFalse, loadConst,
  loadFast, storeFast, loadGlobal, storeGlobal, loadName, storeName,
  loadFree, storeFree, makeCell, loadClosure,
  buildList, buildMap, buildSet, binarySubscr, storeSubscr, deleteSubscr, loadAttr, storeAttr,
  binaryOp, compareOp, unaryNegative, unaryNot, unaryInvert, unaryPositive,
  jumpForward, jumpBackward, popJumpForwardIfTrue, popJumpForwardIfFalse,
  popJumpBackwardIfTrue, popJumpBackwardIfFalse,
  call, returnValue]

def byte : Opcode → UInt8
  | nop => 0 | halt => 1 | popTop => 2 | print => 3
  | pushNil => 4 | pushTrue => 5 | pushFalse => 6 | loadConst => 7
  | loadFast => 8 | storeFast => 9 | loadGlobal => 10 | storeGlobal => 11
  | loadName => 12 | storeName => 13 | loadFree => 14 | storeFree => 15
  | makeCell => 16 | loadClosure => 17 | buildList => 18 | buildMap => 19 | buildSet => 20
  | binarySubscr => 21 | storeSubscr => 22 | deleteSubscr => 23 | loadAttr => 24 | storeAttr => 25
  | binaryOp => 26 | compareOp => 27 | unaryNegative => 28 | unaryNot => 29 | unaryInvert => 30
  | unaryPositive => 31 | jumpForward => 32 | jumpBackward => 33
  | popJumpForwardIfTrue => 34 | popJumpForwardIfFalse => 35
  | popJumpBackwardIfTrue => 36 | popJumpBackwardIfFalse => 37
  | call => 38 | returnValue => 39

def ofByte? (b : UInt8) : Option Opcode := all[b.toNat]?

def mnemonic : Opcode → String
  | nop => "NOP" | halt => "HALT" | popTop => "POP_TOP" | print => "PRINT"
  | pushNil => "NIL" | pushTrue => "TRUE" | pushFalse => "FALSE" | loadConst => "LOAD_CONST"
  | loadFast => "LOAD_FAST" | storeFast => "STORE_FAST"
  | loadGlobal => "LOAD_GLOBAL" | storeGlobal => "STORE_GLOBAL"
  | loadName => "LOAD_NAME" | storeName => "STORE_NAME"
  | loadFree => "LOAD_FREE" | storeFree => "STORE_FREE"
  | makeCell => "MAKE_CELL" | loadClosure => "LOAD_CLOSURE"
  | buildList => "BUILD_LIST" | buildMap => "BUILD_MAP" | buildSet => "BUILD_SET"
  | binarySubscr => "BINARY_SUBSCR" | storeSubscr => "STORE_SUBSCR"
  | deleteSubscr => "DELETE_SUBSCR" | loadAttr => "LOAD_ATTR" | storeAttr => "STORE_ATTR"
  | binaryOp => "BINARY_OP" | compareOp => "COMPARE_OP"
  | unaryNegative => "UNARY_NEGATIVE" | unaryNot => "UNARY_NOT"
  | unaryInvert => "UNARY_INVERT" | unaryPositive => "UNARY_POSITIVE"
  | jumpForward => "JUMP_FORWARD" | jumpBackward => "JUMP_BACKWARD"
  | popJumpForwardIfTrue => "POP_JUMP_FORWARD_IF_TRUE"
  | popJumpForwardIfFalse => "POP_JUMP_FORWARD_IF_FALSE"
  | popJumpBackwardIfTrue => "POP_JUMP_BACKWARD_IF_TRUE"
  | popJumpBackwardIfFalse => "POP_JUMP_BACKWARD_IF_FALSE"
  | call => "CALL" | returnValue => "RETURN_VALUE"

def ofMnemonic? (name : String) : Option Opcode := all.find? (·.mnemonic == name)

/-- The widths in bytes of the operands, in order. -/
def widths : Opcode → List Nat
  | makeCell => [2, 1]
  | loadClosure => [2, 2]
  | binaryOp | compareOp | call | returnValue => [1]
  | loadConst | loadFast | storeFast | loadGlobal | storeGlobal | loadName | storeName
  | loadFree | storeFree | buildList | buildMap | buildSet | loadAttr | storeAttr
  | jumpForward | jumpBackward | popJumpForwardIfTrue | popJumpForwardIfFalse
  | popJumpBackwardIfTrue | popJumpBackwardIfFalse => [2]
  | _ => []

/-- The encoded size of an instruction: the opcode byte and its operands. -/
def size (op : Opcode) : Nat := 1 + operandBytes op.widths

def isJump : Opcode → Bool
  | jumpForward | jumpBackward | popJumpForwardIfTrue | popJumpForwardIfFalse
  | popJumpBackwardIfTrue | popJumpBackwardIfFalse => true
  | _ => false

def isBackward : Opcode → Bool
  | jumpBackward | popJumpBackwardIfTrue | popJumpBackwardIfFalse => true
  | _ => false

@[simp] theorem ofByte?_byte (op : Opcode) : ofByte? op.byte = some op := by cases op <;> rfl

theorem byte_of_ofByte? {b : UInt8} {op : Opcode} (h : ofByte? b = some op) : op.byte = b := by
  obtain ⟨hb, hop⟩ := Array.getElem?_eq_some_iff.1 h
  have key : ∀ n (hn : n < all.size), (all[n]).byte = UInt8.ofNat n := by decide
  rw [← hop, key b.toNat hb, UInt8.ofNat_toNat]

theorem size_pos (op : Opcode) : 0 < op.size := by unfold size; omega

end Opcode

/-- What is known of an opcode byte: a byte that encodes no opcode has an empty name and no
operands. -/
structure Description where
  mnemonic : String
  widths : List Nat
  deriving DecidableEq, Repr

namespace Description

def ofByte (b : UInt8) : Description :=
  match Opcode.ofByte? b with
  | some op => ⟨op.mnemonic, op.widths⟩
  | none => ⟨"", []⟩

def isDefined (d : Description) : Bool := !d.mnemonic.isEmpty

def size (d : Description) : Nat := 1 + operandBytes d.widths

end Description

end Ember
