import Ember.Decimal.Remainder
import Ember.Fault
import Ember.Value.Equality

/-! What the operators of the language compute. Integers are exact 64-bit integers: an operation
whose result does not fit fails. Mixed arithmetic works with floating-point numbers. -/
namespace Ember
set_option autoImplicit false

/-- A computation that reads and extends a heap and may fail. -/
abbrev OnHeap (ε α : Type) : Type := EStateM ε Heap α

namespace OnHeap

variable {ε : Type}

def newList (items : Array Value) : OnHeap ε Value := modifyGet fun h => h.listValue items

def newMap (entries : OrderedMap Key Value) : OnHeap ε Value :=
  modifyGet fun h => h.mapValue entries

def newSet (members : OrderedMap Key Unit) : OnHeap ε Value := modifyGet fun h => h.setValue members

def newResult (isOk : Bool) (payload : Value) : OnHeap ε Value :=
  modifyGet fun h => h.resultValue isOk payload

def newFailure (message : String) : OnHeap ε Value := modifyGet fun h => h.failureValue message

end OnHeap

/-! ## Integers -/

/-- The 64-bit integer equal to `n`, if there is one. -/
def int64? (n : Int) : Option Int64 :=
  if -9223372036854775808 ≤ n ∧ n ≤ 9223372036854775807 then some (Int64.ofInt n) else none

theorem toInt_of_int64? {n : Int} {r : Int64} (h : int64? n = some r) : r.toInt = n := by
  rw [int64?] at h
  split at h
  · rename_i hbounds
    cases h
    exact Int64.toInt_ofInt_of_le (by omega) (by omega)
  · cases h

/-- The power of an integer. An exponent of more than 32 bits is refused whatever the base; so is
one that is too large for any base but 0, 1 and -1. -/
def power? (x : Int) (n : Nat) : Option Int64 :=
  if 4294967295 < n then none
  else if x == 0 || x == 1 || x == -1 then int64? (Int.pow x (if n ≤ 2 then n else 2 + n % 2))
  else if 63 < n then none
  else int64? (Int.pow x n)

/-- The result of an operator on two integers. -/
def integerOp (op : BinaryOperator) (x y : Int64) : Except Fault Value :=
  let fitting : Option Int64 → Except Fault Value
    | some r => .ok (.int r)
    | none => .error (.integerOverflow op.symbol)
  let a := x.toInt
  let b := y.toInt
  match op with
  | .add => fitting (int64? (a + b))
  | .subtract => fitting (int64? (a - b))
  | .multiply => fitting (int64? (a * b))
  | .divide => if b == 0 then .error .divisionByZero else fitting (int64? (a.tdiv b))
  | .modulo =>
    if b == 0 then .error .divisionByZero
    else fitting ((int64? (a.tdiv b)).map fun _ => Int64.ofInt (a.tmod b))
  | .power => if b < 0 then .ok (.float (x.toFloat.pow y.toFloat)) else fitting (power? a b.toNat)
  | .and => .ok (.int (x &&& y))
  | .or => .ok (.int (x ||| y))
  | .xor => .ok (.int (x ^^^ y))
  | .shiftLeft =>
    if b < 0 || 64 ≤ b then .error (.shiftOutOfRange b) else .ok (.int (x <<< y))
  | .shiftRight =>
    if b < 0 || 64 ≤ b then .error (.shiftOutOfRange b) else .ok (.int (x >>> y))

/-! ## Repetition -/

/-- The greatest length, in bytes or items, of a repeated text or list. -/
def maxRepeatLength : Nat := 268435456

/-- The length of `unit` things repeated `count` times, if it is not too large. -/
def repeatLength? (unit : Nat) (count : Int) : Option Nat :=
  if count ≤ 0 || unit == 0 then some 0
  else if unit * count.toNat ≤ maxRepeatLength then some (unit * count.toNat) else none

/-- A text `n` times over, after `out`. -/
def repeatText (s : String) : Nat → String → String
  | 0, out => out
  | n + 1, out => repeatText s n (out ++ s)

/-- Nothing repeated is nothing. -/
theorem eq_zero_of_repeatLength? {unit length : Nat} {count : Int}
    (h : repeatLength? unit count = some length) (hunit : unit = 0) : length = 0 := by
  rw [repeatLength?, if_pos (by simp [hunit])] at h
  exact (Option.some.inj h).symm

/-- Puts items at the end of `out` until it has the given length, which is zero if there are no
items to put there. -/
def fillItems (items : Array Value) (length : Nat) (h : items.size = 0 → length = 0)
    (out : Array Value) : Array Value :=
  if out.size < length then fillItems items length h (out ++ items) else out
termination_by length - out.size
decreasing_by
  rw [Array.size_append]
  omega

def repeatStr (s : String) (count : Int64) : OnHeap Fault Value :=
  match repeatLength? s.utf8ByteSize count.toInt with
  | some length =>
    pure (.str (if length == 0 then "" else repeatText s (length / s.utf8ByteSize) ""))
  | none => throw (.repeatTooLarge count.toInt)

def repeatList (items : Array Value) (count : Int64) : OnHeap Fault Value :=
  match h : repeatLength? items.size count.toInt with
  | some length => OnHeap.newList (fillItems items length (eq_zero_of_repeatLength? h) #[])
  | none => throw (.repeatTooLarge count.toInt)

/-! ## Binary operators -/

/-- The result of an operator on two numbers. -/
def floatOp (op : BinaryOperator) (x y : Float) : Except Fault (Option Float) :=
  match op with
  | .add => .ok (some (x + y))
  | .subtract => .ok (some (x - y))
  | .multiply => .ok (some (x * y))
  | .divide => if y == 0 then .error .divisionByZero else .ok (some (x / y))
  | .modulo => if y == 0 then .error .divisionByZero else .ok (some (Decimal.fmod x y))
  | .power => .ok (some (x.pow y))
  | _ => .ok none

/-- Those of `a` that are in `b`, in the order of `a`. -/
def intersection (a b : OrderedMap Key Unit) : OrderedMap Key Unit :=
  .ofList (a.toList.filter fun e => b.contains e.1)

/-- Those of `a`, then those of `b` that are not in `a`. -/
def union (a b : OrderedMap Key Unit) : OrderedMap Key Unit := .ofList (a.toList ++ b.toList)

/-- Those of `a` that are not in `b`, then those of `b` that are not in `a`. -/
def symmetricDifference (a b : OrderedMap Key Unit) : OrderedMap Key Unit :=
  .ofList ((a.toList.filter fun e => !b.contains e.1) ++ (b.toList.filter fun e => !a.contains e.1))

def boolOp? (op : BinaryOperator) (x y : Bool) : Option Bool :=
  match op with
  | .and => some (x && y)
  | .or => some (x || y)
  | .xor => some (x ^^ y)
  | _ => none

def setOp? (op : BinaryOperator) (x y : OrderedMap Key Unit) : Option (OrderedMap Key Unit) :=
  match op with
  | .and => some (intersection x y)
  | .or => some (union x y)
  | .xor => some (symmetricDifference x y)
  | _ => none

def unsupported (op : BinaryOperator) (v w : Value) : Fault :=
  .unsupportedOperands op.symbol v.typeName w.typeName

/-- Operators on operands that are not both integers but both numbers. -/
def mixedOp (op : BinaryOperator) (v w : Value) : OnHeap Fault Value :=
  match v.asNumber?, w.asNumber? with
  | some x, some y =>
    match floatOp op x y with
    | .ok (some r) => pure (.float r)
    | .ok none => throw (unsupported op v w)
    | .error fault => throw fault
  | _, _ => throw (unsupported op v w)

def binary (op : BinaryOperator) (v w : Value) : OnHeap Fault Value := do
  match op, v, w with
  | _, .int x, .int y =>
    match integerOp op x y with
    | .ok r => pure r
    | .error fault => throw fault
  | .add, .str x, .str y => pure (.str (x ++ y))
  | .add, .list x, .list y =>
    let h ← get
    OnHeap.newList (h.list x ++ h.list y)
  | .multiply, .str s, .int n => repeatStr s n
  | .multiply, .int n, .str s => repeatStr s n
  | .multiply, .list r, .int n => repeatList ((← get).list r) n
  | .multiply, .int n, .list r => repeatList ((← get).list r) n
  | _, .bool x, .bool y =>
    match boolOp? op x y with
    | some r => pure (.bool r)
    | none => throw (unsupported op v w)
  | _, .set x, .set y =>
    let h ← get
    match setOp? op (h.set x) (h.set y) with
    | some members => OnHeap.newSet members
    | none => throw (unsupported op v w)
  | _, _, _ => mixedOp op v w

/-! ## Comparisons -/

/-- The order of two numbers, if neither is a NaN. -/
def floatOrder? (x y : Float) : Option Ordering :=
  if x < y then some .lt else if x == y then some .eq else if y < x then some .gt else none

/-- The order of two integers, two texts or two numbers; nothing else is ordered. -/
def order? : Value → Value → Option Ordering
  | .int x, .int y => some (compare x.toInt y.toInt)
  | .str x, .str y => some (compare x y)
  | v, w =>
    match v.asNumber?, w.asNumber? with
    | some x, some y => floatOrder? x y
    | _, _ => none

def Comparison.holds : Comparison → Ordering → Bool
  | .less, o => o == .lt
  | .lessOrEqual, o => o != .gt
  | .equal, o => o == .eq
  | .notEqual, o => o != .eq
  | .greater, o => o == .gt
  | .greaterOrEqual, o => o != .lt

def comparison (h : Heap) (op : Comparison) (v w : Value) : Except Fault Value :=
  match op with
  | .equal => .ok (.bool (v.equal h w))
  | .notEqual => .ok (.bool (!v.equal h w))
  | op =>
    match order? v w with
    | some o => .ok (.bool (op.holds o))
    | none => .error (.unordered op.symbol v.typeName w.typeName)

/-! ## Unary operators -/

def negate : Value → Except Fault Value
  | .int n =>
    match int64? (-n.toInt) with
    | some r => .ok (.int r)
    | none => .error (.integerOverflow "-")
  | .float x => .ok (.float (-x))
  | v => .error (.badOperand "-" v.typeName)

def affirm : Value → Except Fault Value
  | .int n => .ok (.int n)
  | .float x => .ok (.float x)
  | v => .error (.badOperand "+" v.typeName)

def complement : Value → Except Fault Value
  | .int n => .ok (.int (~~~n))
  | v => .error (.badOperand "~" v.typeName)

end Ember
