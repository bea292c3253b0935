import Ember.Machine.State

/-! Running code. A step executes one instruction; a run takes steps until the code halts, a step
fails, or the steps that it was allowed are used up. -/
namespace Ember
set_option autoImplicit false

namespace Action

/-- Counts a step, and fails if a limit has been passed. -/
def checkLimits (settings : Settings) : Action Unit := fun m =>
  let m := { m with steps := m.steps + 1 }
  match settings.maxSteps with
  | some limit =>
    if limit < m.steps then .error (.stepLimit limit) m else checkStack m
  | none => checkStack m
where
  checkStack (m : Machine) : EStateM.Result Fault Machine Unit :=
    if settings.maxStackSize < m.stack.size then .error (.stackLimit settings.maxStackSize) m
    else .ok () m

/-- Reads the next instruction and moves past it. Gives its offset, too. -/
def fetch : Action (Nat × Instruction) := fun m =>
  match decode m.function.code m.ip with
  | .error e => .error (.undecodable e) m
  | .ok ins =>
    let offset := m.ip
    .ok (offset, ins) { m with ip := offset + ins.size }

/-- Takes two values off the stack; the one on top is the second. -/
def popTwo : Action (Value × Value) := do
  let second ← pop
  let first ← pop
  return (first, second)

/-- Jumps if the value on top of the stack counts as `expected`. -/
def jumpIf (expected : Bool) (ins : Instruction) (offset : Nat) : Action Unit := do
  let v ← pop
  let holds ← ask fun h => .ok (v.isTruthy h)
  if holds = expected then jump (ins.target? offset) offset else pure ()

/-- What an instruction other than `HALT` does. -/
def execute (s : Surroundings) (offset : Nat) (ins : Instruction) : Action Unit := do
  let i := ins.operand 0
  match ins.op with
  | .nop | .halt => pure ()
  | .popTop => let _ ← pop
  | .print => print (← pop)
  | .pushNil => push .nil
  | .pushTrue => push (.bool true)
  | .pushFalse => push (.bool false)
  | .loadConst => push (← constant i)
  | .loadFast => push (← loadFast i)
  | .storeFast =>
    let v ← pop
    storeFast i v
  | .loadGlobal | .loadName =>
    let n ← name i
    push (← loadGlobal n)
  | .storeGlobal | .storeName =>
    let n ← name i
    let v ← pop
    storeGlobal n v
  | .loadFree =>
    let c ← freeCell i
    push (← readCell c)
  | .storeFree =>
    let v ← pop
    let c ← freeCell i
    writeCell c v
  | .makeCell =>
    let c ← makeCell i (ins.operand 1)
    push (.cell c)
  | .loadClosure => push (← makeClosure i (ins.operand 1))
  | .buildList =>
    let items ← popMany i
    push (← onHeap (OnHeap.newList items))
  | .buildMap =>
    let parts ← popMany (2 * i)
    let entries ← ask fun _ => entriesOf parts.toList .empty
    push (← onHeap (OnHeap.newMap entries))
  | .buildSet =>
    let items ← popMany i
    let members ← ask fun _ => membersOf items.toList .empty
    push (← onHeap (OnHeap.newSet members))
  | .binarySubscr =>
    let (container, key) ← popTwo
    push (← ask fun h => getItem h container key)
  | .storeSubscr =>
    let (container, key) ← popTwo
    let v ← pop
    onHeap (setItem container key v)
  | .deleteSubscr =>
    let (container, key) ← popTwo
    onHeap (deleteItem container key)
  | .loadAttr =>
    let n ← name i
    let object ← pop
    push (← ask fun h => getAttribute h object n)
  | .storeAttr =>
    let n ← name i
    let object ← pop
    let v ← pop
    onHeap (setAttribute object n v)
  | .binaryOp =>
    match BinaryOperator.ofSelector? i with
    | none => throw (.undecodable (.invalidOperator offset ins.op i))
    | some op =>
      let (v, w) ← popTwo
      push (← onHeap (binary op v w))
  | .compareOp =>
    match Comparison.ofSelector? i with
    | none => throw (.undecodable (.invalidOperator offset ins.op i))
    | some op =>
      let (v, w) ← popTwo
      push (← ask fun h => comparison h op v w)
  | .unaryNegative =>
    let v ← pop
    push (← ask fun _ => negate v)
  | .unaryPositive =>
    let v ← pop
    push (← ask fun _ => affirm v)
  | .unaryInvert =>
    let v ← pop
    push (← ask fun _ => complement v)
  | .unaryNot =>
    let v ← pop
    let holds ← ask fun h => .ok (v.isTruthy h)
    push (.bool !holds)
  | .jumpForward | .jumpBackward => jump (ins.target? offset) offset
  | .popJumpForwardIfTrue | .popJumpBackwardIfTrue => jumpIf true ins offset
  | .popJumpForwardIfFalse | .popJumpBackwardIfFalse => jumpIf false ins offset
  | .call => call s i
  | .returnValue =>
    if i = 1 then leave (← pop) else leave .nil

/-- One step; says whether the code has halted. -/
def step (s : Surroundings) : Action Bool := do
  checkLimits s.settings
  let (offset, ins) ← fetch
  if ins.op = .halt then return true
  else
    execute s offset ins
    return false

end Action

/-- How a run ends. -/
inductive Outcome
  | halted (m : Machine)
  | failed (failure : Failure) (m : Machine)
  /-- The steps that were allowed are used up. -/
  | running (m : Machine)

namespace Machine

/-- Takes steps until the code halts or a step fails, but at most `fuel` steps. -/
def run (s : Surroundings) : Nat → Machine → Outcome
  | 0, m => .running m
  | fuel + 1, m =>
    match Action.step s m with
    | .ok true m => .halted m
    | .ok false m => run s fuel m
    | .error fault m =>
      let stack := m.callStack
      .failed ⟨fault, stack⟩ m

/-- More steps than any run is seen to take. -/
def ample : Nat := 4611686018427387904

end Machine

end Ember
