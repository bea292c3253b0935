import Ember.Builtin.Arguments
import Ember.Decimal.Integer
import Ember.Text.Blank
import Ember.Text.Search

/-! The functions that are always in scope. Only `append` and `delete` change what their arguments
refer to. -/
namespace Ember
namespace CoreFunction
set_option autoImplicit false

/-! ## Conversions -/

/-- Doubles nearer to zero than this are converted to integers. -/
def integerBound : Float := 9.2e18

/-- The integer part of a double, if it is not too large. -/
def truncated? (x : Float) : Option Int64 :=
  if x.isFinite && x.abs < integerBound then some x.toInt64 else none

def characters (s : String) : Array Value := (Text.characters s).map .str

def lengthOf (h : Heap) (v : Value) : Except CallFault Nat :=
  match v with
  | .str s => .ok s.length
  | .list r => .ok (h.list r).size
  | .map r => .ok (h.map r).size
  | .set r => .ok (h.set r).size
  | v => .error (.noLength v.typeName)

def toInt (v : Value) : Except CallFault Value :=
  match v with
  | .int n => .ok (.int n)
  | .bool b => .ok (.int (if b then 1 else 0))
  | .float x =>
    match truncated? x with
    | some n => .ok (.int n)
    | none => .error (.notAnInteger x)
  | .str s =>
    match Decimal.readInteger (Text.trim s) with
    | .ok n => .ok (.int n)
    | .error _ => .error (.invalidLiteral "int" s)
  | v => wrongType "int" "a number, bool or string" v

def toFloat (v : Value) : Except CallFault Value :=
  match v with
  | .int n => .ok (.float n.toFloat)
  | .float x => .ok (.float x)
  | .str s =>
    match Decimal.read? (Text.trim s) with
    | some x => .ok (.float x)
    | none => .error (.invalidLiteral "float" s)
  | v => wrongType "float" "a number or string" v

/-- What a list is made from: nothing, or one value that has items. -/
def listItems (h : Heap) (v? : Option Value) : Except CallFault (Array Value) :=
  match v? with
  | none => .ok #[]
  | some (.list r) => .ok (h.list r)
  | some (.set r) => .ok ((h.set r).keys.map Key.toValue)
  | some (.map r) => .ok ((h.map r).keys.map Key.toValue)
  | some (.str s) => .ok (characters s)
  | some v => wrongType "list" "an iterable" v

def setMembers (h : Heap) (v? : Option Value) : Except CallFault (OrderedMap Key Unit) :=
  match v? with
  | none => .ok .empty
  | some (.set r) => .ok (h.set r)
  | some (.list r) => memberSet (h.list r).toList .empty
  | some (.str s) => memberSet (characters s).toList .empty
  | some v => wrongType "set" "a list, set or string" v

/-! ## Containers -/

/-- Adds values at the end of a list, and gives back the list. -/
def appendItems (args : Array Value) : HeapCall :=
  match args.toList with
  | [] => throw (.noTarget "append")
  | .list r :: items => do
    modify fun h => h.modifyList r fun old => items.foldl Array.push old
    return .list r
  | v :: _ => EStateM.throw (.wrongType "append" "a list" v.typeName)

/-- The position from which `delete` takes an item. Unlike `position?` it compares integers. -/
def deletePosition? (index : Int64) (length : Nat) : Option Nat :=
  let length := Int64.ofNat length
  let i := if index < 0 then index + length else index
  if i < 0 || length ≤ i then none else some i.toNatClampNeg

/-- Removes an entry and gives back what it held, or nil if there was none. -/
def removeEntry (container key : Value) : HeapCall := do
  match container with
  | .map r =>
    match keyArgument key with
    | .error e => throw e
    | .ok k =>
      let removed := (((← get).map r).get? k).getD .nil
      modify fun h => h.modifyMap r fun entries => entries.erase k
      return removed
  | .set r =>
    match keyArgument key with
    | .error e => throw e
    | .ok k =>
      let removed := if ((← get).set r).contains k then k.toValue else .nil
      modify fun h => h.modifySet r fun members => members.erase k
      return removed
  | .list r =>
    match intArgument "delete" key with
    | .error e => throw e
    | .ok i =>
      let length := ((← get).list r).size
      match deletePosition? i length with
      | none => throw (.indexOutOfRange i.toInt length)
      | some p =>
        let removed := ((← get).list r).getD p .nil
        modify fun h => h.modifyList r fun items => items.eraseIdxIfInBounds p
        return removed
  | v => throw (.wrongType "delete" "a map, set or list" v.typeName)

/-! ## Ranges -/

/-- The number of terms of a range. -/
def rangeCount (start stop step : Int) : Int :=
  let span := (stop - start) * step.sign
  if span ≤ 0 then 0 else (span + step.natAbs - 1) / step.natAbs

/-- Whether a range has a term at `i`. -/
def rangeHolds (stop step i : Int64) : Bool :=
  (0 < step && i < stop) || (step < 0 && stop < i)

theorem sign_pos_of_rangeHolds {stop step i : Int64} (h : rangeHolds stop step i = true) :
    0 < (stop.toInt - i.toInt) * step.toInt.sign ∧ 0 < step.toInt * step.toInt.sign := by
  simp only [rangeHolds, Bool.or_eq_true, Bool.and_eq_true, decide_eq_true_eq,
    Int64.lt_iff_toInt_lt, Int64.toInt_zero] at h
  rcases h with ⟨hstep, hi⟩ | ⟨hstep, hi⟩
  · rw [Int.sign_eq_one_of_pos hstep]
    omega
  · rw [Int.sign_eq_neg_one_of_neg hstep]
    omega

/-- The terms of a range from `i` on, after those in `found`. It ends at `stop`, or where the next
term is no 64-bit integer. -/
def rangeFrom (stop step i : Int64) (found : Array Value) : Array Value :=
  if _h : rangeHolds stop step i then
    match _hnext : int64? (i.toInt + step.toInt) with
    | some next => rangeFrom stop step next (found.push (.int i))
    | none => found.push (.int i)
  else found
termination_by ((stop.toInt - i.toInt) * step.toInt.sign).toNat
decreasing_by
  have hpos := sign_pos_of_rangeHolds _h
  have hadd : next.toInt = i.toInt + step.toInt := toInt_of_int64? _hnext
  rw [hadd, ← Int.sub_sub, Int.sub_mul _ step.toInt]
  omega

/-- The terms of a range, which are counted before they are made. -/
def rangeItems (start stop step : Int64) : Except CallFault (Array Value) :=
  if step = 0 then .error .zeroStep
  else
    let count := rangeCount start.toInt stop.toInt step.toInt
    if (maxRepeatLength : Int) < count then .error (.rangeTooLarge count)
    else .ok (rangeFrom stop step start #[])

def rangeArguments (args : Array Value) : Except CallFault (Int64 × Int64 × Int64) := do
  checkRange "range" 1 3 args
  match ← args.toList.mapM (intArgument "range") with
  | [stop] => return (0, stop, 1)
  | [start, stop] => return (start, stop, 1)
  | [start, stop, step] => return (start, stop, step)
  | _ => throw (.argumentRange "range" 1 3 args.size)

/-! ## Extremes -/

/-- The first of the values to which no later one stands in the given order. -/
def select (name : String) (keep : Ordering) (best : Value) : List Value → Except CallFault Value
  | [] => .ok best
  | v :: rest =>
    match order? v best with
    | some o => select name keep (if o = keep then v else best) rest
    | none => .error (.incomparable name v.typeName best.typeName)

/-- An extreme of the arguments, or of the items of a list that is the only argument. -/
def extreme (h : Heap) (name : String) (keep : Ordering) (args : Array Value) :
    Except CallFault Value :=
  let candidates := match args.toList with
    | [.list r] => (h.list r).toList
    | vs => vs
  if args.isEmpty then .error (.noCandidates name)
  else
    match candidates with
    | [] => .error (.emptyList name)
    | best :: rest => select name keep best rest

/-- The absolute value of an integer, if it is one. -/
def absolute (n : Int64) : Except CallFault Value :=
  match int64? n.toInt.natAbs with
  | some m => .ok (.int m)
  | none => .error .absOverflow

/-! ## Results -/

def outcome (name : String) (args : Array Value) : Except CallFault (Bool × Value) := do
  match ← oneArgument name args with
  | .result _ good payload => return (good, payload)
  | v => wrongType name "a result" v

def messageOf (h : Heap) : Value → String
  | .error _ message => message
  | v => v.text h

def errorText (h : Heap) (v : Value) : Except CallFault Value :=
  match v with
  | .error _ message => .ok (.str message)
  | .result _ false payload => .ok (.str (messageOf h payload))
  | .result _ true _ => .ok .nil
  | v => wrongType "error_message" "an error or result" v

/-! ## All of them -/

def call (f : CoreFunction) (args : Array Value) : HeapCall :=
  match f with
  | .list => do
    let items ← ask fun h => do
      checkRange "list" 0 1 args
      listItems h args[0]?
    OnHeap.newList items
  | .set => do
    let members ← ask fun h => do
      checkRange "set" 0 1 args
      setMembers h args[0]?
    OnHeap.newSet members
  | .keys => do
    let items ← ask fun h => do
      match ← oneArgument "keys" args with
      | .map r => return (h.map r).keys.map Key.toValue
      | v => wrongType "keys" "a map" v
    OnHeap.newList items
  | .values => do
    let items ← ask fun h => do
      match ← oneArgument "values" args with
      | .map r => return (h.map r).values
      | v => wrongType "values" "a map" v
    OnHeap.newList items
  | .append => appendItems args
  | .delete => do
    let (container, key) ← ask fun _ => twoArguments "delete" args
    removeEntry container key
  | .range => do
    let items ← ask fun _ => do
      let (start, stop, step) ← rangeArguments args
      rangeItems start stop step
    OnHeap.newList items
  | .ok => do
    let v ← ask fun _ => oneArgument "ok" args
    OnHeap.newResult true v
  | .err => do
    let v ← ask fun _ => oneArgument "err" args
    OnHeap.newResult false v
  | .len => ask fun h => do
    return .int (Int64.ofNat (← lengthOf h (← oneArgument "len" args)))
  | .type => ask fun _ => do return .str (← oneArgument "type" args).typeName
  | .str => ask fun h => do return .str ((← oneArgument "str" args).text h)
  | .int => ask fun _ => do toInt (← oneArgument "int" args)
  | .float => ask fun _ => do toFloat (← oneArgument "float" args)
  | .min => ask fun h => extreme h "min" .lt args
  | .max => ask fun h => extreme h "max" .gt args
  | .abs => ask fun _ => do
    match ← oneArgument "abs" args with
    | .int n => absolute n
    | .float x => return .float x.abs
    | v => wrongType "abs" "a number argument" v
  | .isOk => ask fun _ => do return .bool (← outcome "is_ok" args).1
  | .isErr => ask fun _ => do return .bool !(← outcome "is_err" args).1
  | .unwrap => ask fun h => do
    match ← outcome "unwrap" args with
    | (true, v) => return v
    | (false, e) => throw (.unwrappedFailure (messageOf h e))
  | .unwrapOr => ask fun _ => do
    let (v, other) ← twoArguments "unwrap_or" args
    match ← outcome "unwrap_or" #[v] with
    | (true, v) => return v
    | (false, _) => return other
  | .errorMessage => ask fun h => do errorText h (← oneArgument "error_message" args)

end CoreFunction
end Ember
