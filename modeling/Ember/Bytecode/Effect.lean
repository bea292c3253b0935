import Ember.Bytecode.Instruction

/-! What an instruction does to the height of the stack: it takes `pops` values off and puts
`pushes` values on, whatever the values are. -/
namespace Ember
namespace Instruction
set_option autoImplicit false

def pops (ins : Instruction) : Nat :=
  match ins.op with
  | .nop | .halt | .pushNil | .pushTrue | .pushFalse | .loadConst | .loadFast | .loadGlobal
  | .loadName | .loadFree | .makeCell | .jumpForward | .jumpBackward => 0
  | .popTop | .print | .storeFast | .storeGlobal | .storeName | .storeFree | .loadAttr
  | .unaryNegative | .unaryNot | .unaryInvert | .unaryPositive
  | .popJumpForwardIfTrue | .popJumpForwardIfFalse
  | .popJumpBackwardIfTrue | .popJumpBackwardIfFalse => 1
  | .binarySubscr | .deleteSubscr | .storeAttr | .binaryOp | .compareOp => 2
  | .storeSubscr => 3
  | .loadClosure => ins.operand 1
  | .buildList | .buildSet | .returnValue => ins.operand 0
  | .buildMap => 2 * ins.operand 0
  | .call => ins.operand 0 + 1

def pushes (ins : Instruction) : Nat :=
  match ins.op with
  | .pushNil | .pushTrue | .pushFalse | .loadConst | .loadFast | .loadGlobal | .loadName
  | .loadFree | .makeCell | .loadClosure | .buildList | .buildSet | .buildMap | .binarySubscr
  | .loadAttr | .binaryOp | .compareOp | .unaryNegative | .unaryNot | .unaryInvert
  | .unaryPositive | .call => 1
  | .nop | .halt | .popTop | .print | .storeFast | .storeGlobal | .storeName | .storeFree
  | .storeSubscr | .deleteSubscr | .storeAttr | .jumpForward | .jumpBackward
  | .popJumpForwardIfTrue | .popJumpForwardIfFalse
  | .popJumpBackwardIfTrue | .popJumpBackwardIfFalse | .returnValue => 0

/-- Whether a run leaves the code here: at the end of a chunk, or of a call. -/
def isExit (ins : Instruction) : Bool :=
  match ins.op with
  | .halt | .returnValue => true
  | _ => false

/-- Whether a run may go on with the instruction that follows. -/
def fallsThrough (ins : Instruction) : Bool :=
  match ins.op with
  | .halt | .returnValue | .jumpForward | .jumpBackward => false
  | _ => true

end Instruction
end Ember
