import Ember.Builtin.Core

/-! The functions of the library `math`. -/
namespace Ember
namespace MathFunction
set_option autoImplicit false

/-- A function of one number. -/
def unary (name : String) (f : Float → Float) (args : Array Value) : Except CallFault Value := do
  return .float (f (← numberArgument name (← oneArgument name args)))

/-- A rounding: integers stay as they are, and a double becomes an integer if that is not too
large. -/
def rounding (name : String) (f : Float → Float) (args : Array Value) : Except CallFault Value := do
  match ← oneArgument name args with
  | .int n => return .int n
  | v =>
    let x := f (← numberArgument name v)
    match CoreFunction.truncated? x with
    | some n => return .int n
    | none => return .float x

/-- The second of two numbers if it stands to the first one in the given order, else the first. -/
def pick (name : String) (keep : Ordering) (args : Array Value) : Except CallFault Value := do
  let (v, w) ← twoArguments name args
  let _ ← numberArgument name v
  let _ ← numberArgument name w
  return if order? w v = some keep then w else v

def call (f : MathFunction) (args : Array Value) : Except CallFault Value :=
  match f with
  | .sqrt => unary "sqrt" Float.sqrt args
  | .floor => rounding "floor" Float.floor args
  | .ceil => rounding "ceil" Float.ceil args
  | .abs => do
    match ← oneArgument "abs" args with
    | .int n => CoreFunction.absolute n
    | v => return .float (← numberArgument "abs" v).abs
  | .pow => do
    let (base, exponent) ← twoArguments "pow" args
    let x ← numberArgument "pow" base
    let y ← numberArgument "pow" exponent
    return .float (x.pow y)
  | .min => pick "min" .lt args
  | .max => pick "max" .gt args
  | .sin => unary "sin" Float.sin args
  | .cos => unary "cos" Float.cos args
  | .tan => unary "tan" Float.tan args
  | .log => unary "log" Float.log args
  | .exp => unary "exp" Float.exp args

end MathFunction
end Ember
