import Ember.Machine.Run

/-! Frames that are used again. Making a frame ready for a call leaves nothing of what it was used
for before. So a machine that keeps the frames of calls that have returned does the same, step for
step, as one that makes a new frame for each call and drops it when the call returns. -/
namespace Ember
set_option autoImplicit false

/-! ## Frames -/

namespace Frame

/-- Where the slots are kept depends on their number alone. -/
theorem spills_eq (wasSpilled : Bool) (count : Nat) :
    spills wasSpilled count = decide (inlineSlots < count) := by
  unfold spills
  by_cases h : count ≤ inlineSlots
  · cases wasSpilled <;> simp [h]
  · cases wasSpilled <;> simp [h, Nat.lt_of_not_le h]

section
variable (used : Frame) (f : Routine Value) (resume count : Nat) (args : Array Value)

theorem init_eq : used.init f resume count =
    ⟨f, #[], resume, 0, Array.replicate count .nil, decide (inlineSlots < count)⟩ := by
  rw [init, spills_eq]

theorem initWithLocals_eq : used.initWithLocals f resume args =
    ⟨f, #[], resume, 0, args ++ Array.replicate (max f.localCount args.size - args.size) .nil,
      decide (inlineSlots < max f.localCount args.size)⟩ := by
  rw [initWithLocals, init_eq]

end

end Frame

/-! ## A machine that makes every frame anew -/

namespace Action

/-- Begins a call of a function in a frame that has not been used before. -/
def enterNew (s : Surroundings) (f : Routine Value) (cells : Array CellRef) (args : Array Value) :
    Action Unit := fun m =>
  if args.size ≠ f.arity then .error (.wrongArity f.name f.arity args.size) m
  else if s.settings.maxCallDepth ≤ m.frames.size then
    .error (.depthLimit s.settings.maxCallDepth f.name) m
  else
    let frame :=
      { ((Frame.new f 0 0).initWithLocals f m.ip args).withCells cells with base := m.stack.size }
    .ok () { m with frames := m.frames.push frame, function := f, ip := 0 }

/-- Calls the value below the `count` arguments on the stack, in a new frame. -/
def callNew (s : Surroundings) (count : Nat) : Action Unit := do
  let values ← popMany (count + 1)
  let args := values.extract 1 values.size
  match values.getD 0 .nil with
  | .function f => enterNew s f #[] args
  | .closure _ f cells => enterNew s f cells args
  | .builtin _ b => callBuiltin s b args
  | v => throw (.notCallable v.typeName)

/-- Ends the active call and drops its frame. -/
def leaveNew (v : Value) : Action Unit := fun m =>
  if m.frames.size ≤ 1 then .error .returnOutsideFunction m
  else
    match m.frames.back? with
    | none => .error .noActiveFrame m
    | some frame =>
      let frames := m.frames.pop
      match frames.back? with
      | none => .error .noActiveFrame m
      | some caller =>
        .ok () { m with
          stack := (m.stack.shrink frame.base).push v
          ip := frame.resume
          function := caller.function
          frames }

/-- What an instruction other than `HALT` does, with a new frame for each call. -/
def executeNew (s : Surroundings) (offset : Nat) (ins : Instruction) : Action Unit :=
  match ins.op with
  | .call => callNew s (ins.operand 0)
  | .returnValue => do
    if ins.operand 0 = 1 then leaveNew (← pop) else leaveNew .nil
  | _ => execute s offset ins

/-- One step, with a new frame for each call; says whether the code has halted. -/
def stepNew (s : Surroundings) : Action Bool := do
  checkLimits s.settings
  let (offset, ins) ← fetch
  if ins.op = .halt then return true
  else
    executeNew s offset ins
    return false

end Action

namespace Machine

/-- Takes steps like `run`, with a new frame for each call. -/
def runNew (s : Surroundings) : Nat → Machine → Outcome
  | 0, m => .running m
  | fuel + 1, m =>
    match Action.stepNew s m with
    | .ok true m => .halted m
    | .ok false m => runNew s fuel m
    | .error fault m => .failed ⟨fault, m.callStack⟩ m

/-- All of a machine but the frames that it keeps to use them again. -/
def withoutPool (m : Machine) : Machine := { m with pool := [] }

end Machine

def Outcome.withoutPool : Outcome → Outcome
  | .halted m => .halted m.withoutPool
  | .failed failure m => .failed failure m.withoutPool
  | .running m => .running m.withoutPool

/-! ## Actions -/

/-- What comes of an action, but for the pool. -/
def Action.leavingPool {α : Type} :
    EStateM.Result Fault Machine α → EStateM.Result Fault Machine α
  | .ok a m => .ok a m.withoutPool
  | .error fault m => .error fault m.withoutPool

/-- Without a pool the second action does what the first one does with any pool. -/
def Action.Mirrors {α : Type} (x y : Action α) : Prop :=
  ∀ m : Machine, y m.withoutPool = leavingPool (x m)

namespace Action.Mirrors

variable {α β : Type}

theorem bind {x y : Action α} {f g : α → Action β} (h : Mirrors x y)
    (hrest : ∀ a, Mirrors (f a) (g a)) : Mirrors (x >>= f) (y >>= g) := by
  intro m
  show EStateM.bind y g m.withoutPool = leavingPool (EStateM.bind x f m)
  rw [EStateM.bind, EStateM.bind, h m]
  cases x m with
  | ok a m' => exact hrest a m'
  | error fault m' => rfl

theorem pure (a : α) : Mirrors (pure a) (pure a) := fun _ => rfl

theorem throw (fault : Fault) : Mirrors (throw fault : Action α) (throw fault) := fun _ => rfl

/-! ### The stack and the heap -/

theorem push (v : Value) : Mirrors (push v) (push v) := fun _ => rfl

theorem pop : Mirrors pop pop := by
  intro m
  unfold Action.pop Machine.withoutPool
  cases m.stack.back? <;> rfl

theorem popMany (n : Nat) : Mirrors (popMany n) (popMany n) := by
  intro m
  unfold Action.popMany Machine.withoutPool
  dsimp only
  split <;> rfl

theorem popTwo : Mirrors popTwo popTwo := .bind .pop fun _ => .bind .pop fun _ => .pure _

theorem onHeap (x : OnHeap Fault α) : Mirrors (onHeap x) (onHeap x) := by
  intro m
  unfold Action.onHeap Machine.withoutPool
  dsimp only
  cases x m.heap <;> rfl

theorem ask (f : Heap → Except Fault α) : Mirrors (ask f) (ask f) := by
  intro m
  unfold Action.ask Machine.withoutPool
  cases f m.heap <;> rfl

theorem print (v : Value) : Mirrors (print v) (print v) := fun _ => rfl

/-! ### Names and tables -/

theorem constant (i : Nat) : Mirrors (constant i) (constant i) := by
  intro m
  unfold Action.constant Machine.withoutPool
  cases m.function.constants[i]? <;> rfl

theorem name (i : Nat) : Mirrors (name i) (name i) := by
  intro m
  unfold Action.name Machine.withoutPool
  cases m.function.names[i]? <;> rfl

theorem loadGlobal (n : String) : Mirrors (loadGlobal n) (loadGlobal n) := by
  intro m
  unfold Action.loadGlobal Machine.withoutPool
  cases m.globals.get? n <;> rfl

theorem storeGlobal (n : String) (v : Value) : Mirrors (storeGlobal n v) (storeGlobal n v) :=
  fun _ => rfl

/-! ### Slots and cells -/

theorem slot (i : Nat) : Mirrors (slot i) (slot i) := by
  intro m
  unfold Action.slot Machine.withoutPool
  cases m.frames.back? with
  | none => rfl
  | some f =>
    dsimp only
    cases f.locals[i]? <;> rfl

theorem freeCell (i : Nat) : Mirrors (freeCell i) (freeCell i) := by
  intro m
  unfold Action.freeCell Machine.withoutPool
  cases m.frames.back? with
  | none => rfl
  | some f =>
    dsimp only
    cases f.cells[i]? <;> rfl

theorem setSlot (i : Nat) (v : Value) : Mirrors (setSlot i v) (setSlot i v) := fun _ => rfl

theorem readCell (c : CellRef) : Mirrors (readCell c) (readCell c) := fun _ => rfl

theorem writeCell (c : CellRef) (v : Value) : Mirrors (writeCell c v) (writeCell c v) :=
  fun _ => rfl

theorem loadFast (i : Nat) : Mirrors (loadFast i) (loadFast i) := by
  refine .bind (.slot i) fun v => ?_
  cases v with
  | cell c => exact .readCell c
  | _ => exact .pure _

theorem storeFast (i : Nat) (v : Value) : Mirrors (storeFast i v) (storeFast i v) := by
  refine .bind (.slot i) fun w => ?_
  cases w with
  | cell c => exact .writeCell c v
  | _ => exact .setSlot i v

theorem cellOfSlot (i : Nat) : Mirrors (cellOfSlot i) (cellOfSlot i) := by
  refine .bind (.slot i) fun w => ?_
  cases w with
  | cell c => exact .pure c
  | _ => exact .bind (.onHeap _) fun c => .bind (.setSlot i _) fun _ => .pure c

theorem makeCell (i source : Nat) : Mirrors (makeCell i source) (makeCell i source) := by
  unfold Action.makeCell
  split
  · exact .cellOfSlot i
  · exact .freeCell i
  · exact .throw _

theorem makeClosure (i count : Nat) : Mirrors (makeClosure i count) (makeClosure i count) := by
  refine .bind (.constant i) fun v => ?_
  cases v with
  | function f =>
    exact .bind (.popMany count) fun _ => .bind (.ask _) fun _ => .bind (.onHeap _) fun _ => .pure _
  | _ => exact .throw _

/-! ### Control -/

theorem jump (target : Option Nat) (offset : Nat) :
    Mirrors (jump target offset) (jump target offset) := by
  intro m
  cases target <;> rfl

theorem jumpIf (expected : Bool) (ins : Instruction) (offset : Nat) :
    Mirrors (jumpIf expected ins offset) (jumpIf expected ins offset) := by
  refine .bind .pop fun v => .bind (.ask _) fun holds => ?_
  split
  · exact .jump _ _
  · exact .pure ()

/-- A call in a frame of the pool begins like one in a new frame. -/
theorem enter (s : Surroundings) (f : Routine Value) (cells : Array CellRef) (args : Array Value) :
    Mirrors (enter s f cells args) (enterNew s f cells args) := by
  intro m
  unfold Action.enter enterNew Machine.withoutPool
  dsimp only
  split
  · rfl
  · split
    · rfl
    · cases m.pool with
      | nil => rfl
      | cons used rest =>
        dsimp only
        rw [used.initWithLocals_eq, Frame.initWithLocals_eq]
        rfl

theorem leave (v : Value) : Mirrors (leave v) (leaveNew v) := by
  intro m
  unfold Action.leave leaveNew Machine.withoutPool
  dsimp only
  split
  · rfl
  · cases m.frames.back? with
    | none => rfl
    | some frame =>
      dsimp only
      cases m.frames.pop.back? <;> rfl

theorem callBuiltin (s : Surroundings) (b : Builtin) (args : Array Value) :
    Mirrors (callBuiltin s b args) (callBuiltin s b args) := by
  intro m
  unfold Action.callBuiltin Machine.withoutPool
  dsimp only
  rcases b.call s.host args ⟨m.heap, m.world⟩ with ⟨v, ⟨heap, world⟩⟩
  cases v <;> rfl

theorem call (s : Surroundings) (count : Nat) : Mirrors (call s count) (callNew s count) := by
  refine .bind (.popMany _) fun values => ?_
  dsimp only
  cases values.getD 0 .nil with
  | function f => exact .enter s f #[] _
  | closure id f cells => exact .enter s f cells _
  | builtin id b => exact .callBuiltin s b _
  | _ => exact .throw _

/-! ### Steps -/

theorem execute (s : Surroundings) (offset : Nat) (ins : Instruction) :
    Mirrors (execute s offset ins) (executeNew s offset ins) := by
  obtain ⟨op, operands⟩ := ins
  cases op with
  | nop | halt => exact .pure ()
  | popTop => exact .bind .pop fun _ => .pure ()
  | print => exact .bind .pop fun v => .print v
  | pushNil | pushTrue | pushFalse => exact .push _
  | loadConst => exact .bind (.constant _) fun v => .push v
  | loadFast => exact .bind (.loadFast _) fun v => .push v
  | storeFast => exact .bind .pop fun v => .storeFast _ v
  | loadGlobal | loadName => exact .bind (.name _) fun n => .bind (.loadGlobal n) fun v => .push v
  | storeGlobal | storeName => exact .bind (.name _) fun n => .bind .pop fun v => .storeGlobal n v
  | loadFree => exact .bind (.freeCell _) fun c => .bind (.readCell c) fun v => .push v
  | storeFree => exact .bind .pop fun v => .bind (.freeCell _) fun c => .writeCell c v
  | makeCell => exact .bind (.makeCell _ _) fun c => .push _
  | loadClosure => exact .bind (.makeClosure _ _) fun v => .push v
  | buildList => exact .bind (.popMany _) fun _ => .bind (.onHeap _) fun v => .push v
  | buildMap | buildSet =>
    exact .bind (.popMany _) fun _ => .bind (.ask _) fun _ => .bind (.onHeap _) fun v => .push v
  | binarySubscr => exact .bind .popTwo fun _ => .bind (.ask _) fun v => .push v
  | storeSubscr => exact .bind .popTwo fun _ => .bind .pop fun _ => .onHeap _
  | deleteSubscr => exact .bind .popTwo fun _ => .onHeap _
  | loadAttr => exact .bind (.name _) fun _ => .bind .pop fun _ => .bind (.ask _) fun v => .push v
  | storeAttr => exact .bind (.name _) fun _ => .bind .pop fun _ => .bind .pop fun _ => .onHeap _
  | binaryOp =>
    unfold executeNew Action.execute
    dsimp only
    split
    · exact .throw _
    · exact .bind .popTwo fun _ => .bind (.onHeap _) fun v => .push v
  | compareOp =>
    unfold executeNew Action.execute
    dsimp only
    split
    · exact .throw _
    · exact .bind .popTwo fun _ => .bind (.ask _) fun v => .push v
  | unaryNegative | unaryPositive | unaryInvert =>
    exact .bind .pop fun _ => .bind (.ask _) fun v => .push v
  | unaryNot => exact .bind .pop fun _ => .bind (.ask _) fun _ => .push _
  | jumpForward => exact .jump (Instruction.target? ⟨.jumpForward, operands⟩ offset) offset
  | jumpBackward => exact .jump (Instruction.target? ⟨.jumpBackward, operands⟩ offset) offset
  | popJumpForwardIfTrue | popJumpBackwardIfTrue => exact .jumpIf true _ _
  | popJumpForwardIfFalse | popJumpBackwardIfFalse => exact .jumpIf false _ _
  | call => exact .call s _
  | returnValue =>
    unfold executeNew Action.execute
    dsimp only
    split
    · exact .bind .pop fun v => .leave v
    · exact .leave .nil

theorem checkLimits (settings : Settings) :
    Mirrors (checkLimits settings) (checkLimits settings) := by
  intro m
  unfold Action.checkLimits checkLimits.checkStack Machine.withoutPool
  dsimp only
  split
  · split
    · rfl
    · split <;> rfl
  · split <;> rfl

theorem fetch : Mirrors fetch fetch := by
  intro m
  unfold Action.fetch Machine.withoutPool
  dsimp only
  cases decode m.function.code m.ip <;> rfl

theorem step (s : Surroundings) : Mirrors (step s) (stepNew s) := by
  refine .bind (.checkLimits _) fun _ => .bind .fetch fun (offset, ins) => ?_
  dsimp only
  split
  · exact .pure true
  · exact .bind (.execute s offset ins) fun _ => .pure false

end Action.Mirrors

/-! ## Runs -/

theorem Machine.runNew_withoutPool (s : Surroundings) (fuel : Nat) (m : Machine) :
    m.withoutPool.runNew s fuel = (m.run s fuel).withoutPool := by
  induction fuel generalizing m with
  | zero => rfl
  | succ fuel ih =>
    rw [runNew, run, Action.Mirrors.step s m]
    cases Action.step s m with
    | ok halted m' =>
      cases halted with
      | true => rfl
      | false => exact ih m'
    | error fault m' => rfl

/-- That frames are used again cannot be seen. However a frame has been used, it is made ready as a
new one is: with the given values in its first slots and nil in the others, without cells, at base
zero and with the slots kept apart just if they are more than four. And a machine that makes a new
frame for each call does in every number of steps what one does that uses its frames again: only the
frames that are kept for other calls differ. -/
theorem pooling_is_invisible :
    (∀ (used : Frame) (f : Routine Value) (resume count : Nat) (args : Array Value),
      let slots := max f.localCount args.size
      used.init f resume count = .new f resume count ∧
      used.init f resume count =
        ⟨f, #[], resume, 0, Array.replicate count .nil, decide (4 < count)⟩ ∧
      used.initWithLocals f resume args = (Frame.new f 0 0).initWithLocals f resume args ∧
      used.initWithLocals f resume args =
        ⟨f, #[], resume, 0, args ++ Array.replicate (slots - args.size) .nil,
          decide (4 < slots)⟩) ∧
    ∀ (s : Surroundings) (main : Routine Value) (offset : Nat) (globals : Globals) (heap : Heap)
      (world : World) (fuel : Nat),
      (Machine.start main offset globals heap world).runNew s fuel =
        ((Machine.start main offset globals heap world).run s fuel).withoutPool := by
  constructor
  · intro used f resume count args
    refine ⟨?_, used.init_eq f resume count, ?_, used.initWithLocals_eq f resume args⟩
    · rw [Frame.new, Frame.init_eq, Frame.init_eq]
    · rw [Frame.initWithLocals_eq, Frame.initWithLocals_eq]
  · intro s main offset globals heap world fuel
    exact Machine.runNew_withoutPool s fuel (.start main offset globals heap world)

end Ember
