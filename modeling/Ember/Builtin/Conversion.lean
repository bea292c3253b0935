import Ember.Builtin.Arguments
import Ember.Decimal.Integer

/-! The functions of the library `strconv`, which read texts and give back results. -/
namespace Ember
namespace ConversionFunction
set_option autoImplicit false

/-- What is said of a text that cannot be read. -/
def failure (name text reason : String) : String :=
  "strconv." ++ name ++ ": parsing " ++ Text.quote text ++ ": " ++ reason

def readBool? (s : String) : Option Bool :=
  if ["1", "t", "T", "true", "TRUE", "True"].contains s then some true
  else if ["0", "f", "F", "false", "FALSE", "False"].contains s then some false
  else none

def readFloat (s : String) : Except String Float :=
  match Decimal.read? s with
  | some x => .ok x
  | none =>
    .error (if s.isEmpty then "cannot parse float from empty string" else "invalid float literal")

/-- The result of reading a text. -/
def newReading (name text : String) : Except String Value → HeapCall
  | .ok v => OnHeap.newResult true v
  | .error reason => OnHeap.newFailure (failure name text reason)

def textArgument (name : String) (args : Array Value) : OnHeap CallFault String :=
  ask fun _ => do strArgument name (← oneArgument name args)

def call (f : ConversionFunction) (args : Array Value) : HeapCall :=
  match f with
  | .atoi => do
    let s ← textArgument "atoi" args
    newReading "atoi" s (match Decimal.readInteger s with
      | .ok n => .ok (.int n)
      | .error e => .error e.message)
  | .atof => do
    let s ← textArgument "atof" args
    newReading "atof" s ((readFloat s).map .float)
  | .itoa => ask fun _ => do
    return .str (toString (← intArgument "itoa" (← oneArgument "itoa" args)).toInt)
  | .parseBool => do
    let s ← textArgument "parse_bool" args
    newReading "parse_bool" s (match readBool? s with
      | some b => .ok (.bool b)
      | none => .error "invalid syntax")

end ConversionFunction
end Ember
