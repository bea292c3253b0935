import Ember.Bytecode.Instruction
import Ember.Value.Basic

/-! Why a run stops early. Each cause has a kind and one wording; a `Failure` adds the functions
that were active. -/
namespace Ember
set_option autoImplicit false

inductive Fault
  /- operators -/
  | unsupportedOperands (symbol left right : String)
  | integerOverflow (symbol : String)
  | divisionByZero
  | shiftOutOfRange (count : Int)
  | repeatTooLarge (count : Int)
  | unordered (symbol left right : String)
  | badOperand (symbol type : String)
  /- containers and attributes -/
  | unhashable (type : String)
  | indexOutOfBounds (index : Int) (length : Nat)
  | badIndexType (container key : String)
  | notSubscriptable (type : String)
  | noItemAssignment (type : String)
  | noItemDeletion (type : String)
  | noMember (library name : String)
  | noAttribute (type name : String)
  | readOnlyLibrary (library name : String)
  | cannotSetAttribute (type name : String)
  /- names and calls -/
  | undefinedVariable (name : String)
  | notCallable (type : String)
  | wrongArity (name : String) (expected given : Nat)
  | closureOfNonFunction (type : String)
  | closureOfNonCell (type : String)
  | returnOutsideFunction
  | noActiveFrame
  /- limits -/
  | stepLimit (limit : Nat)
  | stackLimit (limit : Nat)
  | depthLimit (limit : Nat) (name : String)
  /- malformed code -/
  | undecodable (e : DecodeError)
  | stackUnderflow (needed available : Nat)
  | slotOutOfRange (slot count : Nat)
  | freeOutOfRange (index : Nat) (name : String)
  | constantOutOfRange (index : Nat)
  | nameOutOfRange (index : Nat)
  | invalidCellSource (source : Nat)
  | jumpBeforeStart (offset : Nat)
  /- an error value that a builtin returned -/
  | raised (kind : ErrorKind) (message : String)
  deriving DecidableEq, Repr

namespace Fault

def kind : Fault → ErrorKind
  | unsupportedOperands .. | unordered .. | badOperand .. | unhashable _ | badIndexType ..
  | notSubscriptable _ | noItemAssignment _ | noItemDeletion _ | noAttribute ..
  | readOnlyLibrary .. | cannotSetAttribute .. | notCallable _ | closureOfNonFunction _
  | closureOfNonCell _ => .type
  | wrongArity .. => .arity
  | undecodable _ | slotOutOfRange .. | freeOutOfRange .. | constantOutOfRange _
  | nameOutOfRange _ | invalidCellSource _ | jumpBeforeStart _ => .decode
  | raised kind _ => kind
  | integerOverflow _ | divisionByZero | shiftOutOfRange _ | repeatTooLarge _
  | indexOutOfBounds .. | noMember .. | undefinedVariable _ | returnOutsideFunction
  | noActiveFrame | stepLimit _ | stackLimit _ | depthLimit .. | stackUnderflow .. => .runtime

def message : Fault → String
  | unsupportedOperands symbol left right =>
    s!"unsupported operand types for {symbol}: '{left}' and '{right}'"
  | integerOverflow symbol => s!"integer overflow in '{symbol}'"
  | divisionByZero => "division by zero"
  | shiftOutOfRange count => s!"shift count {count} out of range"
  | repeatTooLarge count => s!"repeat count too large ({count})"
  | unordered symbol left right => s!"'{symbol}' not supported between '{left}' and '{right}'"
  | badOperand symbol type => s!"bad operand type for unary {symbol}: '{type}'"
  | unhashable type => s!"unhashable type: {type}"
  | indexOutOfBounds index length => s!"index {index} out of bounds for length {length}"
  | badIndexType container key => s!"{container} indices must be int, not {key}"
  | notSubscriptable type => s!"'{type}' object is not subscriptable"
  | noItemAssignment type => s!"'{type}' object does not support item assignment"
  | noItemDeletion type => s!"'{type}' object does not support item deletion"
  | noMember library name => s!"module '{library}' has no attribute '{name}'"
  | noAttribute type name => s!"'{type}' object has no attribute '{name}'"
  | readOnlyLibrary library name =>
    s!"cannot set attribute '{name}' on read-only module '{library}'"
  | cannotSetAttribute type name => s!"cannot set attribute '{name}' on '{type}'"
  | undefinedVariable name => s!"undefined variable '{name}'"
  | notCallable type => s!"'{type}' object is not callable"
  | wrongArity name expected given => s!"{name}() takes {expected} arguments ({given} given)"
  | closureOfNonFunction type => s!"LOAD_CLOSURE expects a function constant, got {type}"
  | closureOfNonCell type => s!"LOAD_CLOSURE expects cells, got {type}"
  | returnOutsideFunction => "return outside of a function"
  | noActiveFrame => "no active frame"
  | stepLimit limit => s!"execution step limit exceeded ({limit})"
  | stackLimit limit => s!"stack size limit exceeded ({limit})"
  | depthLimit limit name =>
    s!"call depth limit exceeded ({limit}) - possible infinite recursion in '{name}'"
  | undecodable e => e.message
  | stackUnderflow needed available =>
    s!"stack underflow: needed {needed} values, {available} available"
  | slotOutOfRange slot count => s!"local slot {slot} out of range ({count} locals)"
  | freeOutOfRange index name => s!"free variable {index} out of range in '{name}'"
  | constantOutOfRange index => s!"constant index {index} out of range"
  | nameOutOfRange index => s!"name index {index} out of range"
  | invalidCellSource source => s!"invalid cell source {source} for MAKE_CELL"
  | jumpBeforeStart offset => s!"jump at offset {offset} lands before the start of the code"
  | raised _ message => message

/-- The message after the title of its kind. -/
def report (f : Fault) : String := f.kind.title ++ ": " ++ f.message

end Fault

/-- A fault and the functions that were active, innermost first. -/
structure Failure where
  fault : Fault
  callStack : List String
  deriving DecidableEq, Repr

namespace Failure

def traceLines : Nat → List String → String
  | _, [] => ""
  | i, name :: rest => s!"\n    {i}: {name}" ++ traceLines (i + 1) rest

def report (f : Failure) : String :=
  f.fault.report ++
    (if f.callStack.isEmpty then "" else "\n  call stack:" ++ traceLines 0 f.callStack)

end Failure

end Ember
