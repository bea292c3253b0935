import Ember.Bytecode.Opcode
import Ember.Token.Basic

/-! Why a program is refused although it can be read. -/
namespace Ember
set_option autoImplicit false

inductive CompileFault
  | operandTooLarge (op : Opcode) (operand width : Nat)
  | jumpTooLarge
  | tooMany (what : String) (limit : Nat)
  | assignToBuiltin (name : String)
  | undeclaredAssignment (name : String)
  | returnOutsideFunction
  | outsideLoop (keyword : Keyword)
  | invalidTarget
  deriving DecidableEq, Repr

namespace CompileFault

def message : CompileFault → String
  | operandTooLarge op operand width =>
    let name := op.mnemonic
    s!"operand {operand} of {name} does not fit in {width} byte(s)"
  | jumpTooLarge => "jump too large"
  | tooMany what limit => s!"too many {what} (limit is {limit})"
  | assignToBuiltin name => s!"cannot assign to builtin '{name}'"
  | undeclaredAssignment name => s!"assignment to undeclared variable '{name}'"
  | returnOutsideFunction => "'return' outside of a function"
  | outsideLoop keyword => "'" ++ keyword.text ++ "' outside of a loop"
  | invalidTarget => "invalid assignment target"

def hint? : CompileFault → Option String
  | returnOutsideFunction =>
    some "top-level chunks produce the value of their last expression instead"
  | undeclaredAssignment name =>
    some s!"declare it first with 'var {name} = ...' or '{name} := ...'"
  | _ => none

end CompileFault

structure CompileError where
  fault : CompileFault
  span : Span
  deriving DecidableEq, Repr

def CompileError.message (e : CompileError) : String :=
  e.span.text ++ ": compile error: " ++ e.fault.message ++
    (match e.fault.hint? with
    | some hint => "\n  hint: " ++ hint
    | none => "")

end Ember
