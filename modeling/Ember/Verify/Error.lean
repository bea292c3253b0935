import Ember.Bytecode.Instruction
import Ember.Text.Padding

/-! Why code is refused before it runs. -/
namespace Ember
set_option autoImplicit false

inductive VerifyFault
  | rangeOutside
  | noHalt
  | heightMismatch (height seen : Nat)
  | undecodable (e : DecodeError)
  | runsPast
  | underflow (op : Opcode) (needed available : Nat)
  | fallsOff
  | insideInstruction
  | targetOutside
  | constantOutOfRange (index : Nat)
  | cellCount (name : String) (given needed : Nat)
  | closureOfNonFunction
  | nameOutOfRange (index : Nat)
  | slotOutOfRange (slot : Nat)
  | freeOutOfRange (index : Nat)
  | invalidCellSource (source : Nat)
  | cellOutOfRange (index : Nat)
  | invalidReturnFlag (flag : Nat)
  | atTopLevel (op : Opcode)
  | inFunction (op : Opcode)
  deriving DecidableEq, Repr

def VerifyFault.message : VerifyFault → String
  | rangeOutside => "chunk range is outside the code"
  | noHalt => "chunk does not end with HALT"
  | heightMismatch height seen => s!"stack height {height} does not match {seen} from another path"
  | undecodable e => e.message
  | runsPast => "instruction runs past the end of the code"
  | underflow op needed available =>
    let name := op.mnemonic
    s!"stack underflow: {name} needs {needed} values, {available} available"
  | fallsOff => "execution falls off the end of the code"
  | insideInstruction => "jump into the middle of an instruction"
  | targetOutside => "jump target outside the code"
  | constantOutOfRange index => s!"constant index {index} out of range"
  | cellCount name given needed => s!"closure over '{name}' gets {given} cells, needs {needed}"
  | closureOfNonFunction => "LOAD_CLOSURE of a non-function constant"
  | nameOutOfRange index => s!"name index {index} out of range"
  | slotOutOfRange slot => s!"local slot {slot} out of range"
  | freeOutOfRange index => s!"free variable {index} out of range"
  | invalidCellSource source => s!"invalid cell source {source}"
  | cellOutOfRange index => s!"cell index {index} out of range"
  | invalidReturnFlag flag => s!"invalid return flag {flag}"
  | atTopLevel op => op.mnemonic ++ " in module code"
  | inFunction op => op.mnemonic ++ " in function code"

/-- A fault at an offset of the code of a function. -/
structure VerifyError where
  function : String
  offset : Nat
  fault : VerifyFault
  deriving DecidableEq, Repr

def VerifyError.message (e : VerifyError) : String :=
  "verify error in " ++ e.function ++ " at " ++ Text.offset e.offset ++ ": " ++ e.fault.message

end Ember
