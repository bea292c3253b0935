import Ember.Proofs.Machine.Limits

/-! What a run may use. Whatever code runs, accepted or not, and however the run ends, the call that
was first begun stays at the bottom of the frames, calls are kept within their limit, and a step
leaves at most one value more on the stack. -/
namespace Ember
set_option autoImplicit false

/-! ## Frames -/

/-- A frame whose slots have been cleared. -/
def Frame.blank (frame : Frame) : Frame :=
  { frame with locals := Array.replicate frame.locals.size .nil }

theorem Frame.blank_setLocal (frame : Frame) (i : Nat) (v : Value) :
    (frame.setLocal i v).blank = frame.blank := by
  unfold blank setLocal
  rw [Array.size_setIfInBounds]

/-- The frame is that of a run of the function: nobody waits for it, and it has captured nothing. -/
structure Frame.Outermost (main : Routine Value) (frame : Frame) : Prop where
  function : frame.function = main
  cells : frame.cells = #[]
  resume : frame.resume = 0
  base : frame.base = 0
  locals : frame.locals.size = main.localCount

theorem Frame.Outermost.of_blank {main : Routine Value} {frame frame' : Frame}
    (h : frame.Outermost main) (hblank : frame'.blank = frame.blank) : frame'.Outermost main := by
  have hlocals := congrArg (fun f => f.locals.size) hblank
  unfold blank at hlocals
  rw [Array.size_replicate, Array.size_replicate] at hlocals
  exact ⟨(congrArg Frame.function hblank).trans h.function,
    (congrArg Frame.cells hblank).trans h.cells, (congrArg Frame.resume hblank).trans h.resume,
    (congrArg Frame.base hblank).trans h.base, hlocals.trans h.locals⟩

/-! ## Actions -/

/-- Between the two, no call has begun or ended, and the stack has got at most `k` values more. -/
structure Machine.Grown (k : Nat) (m m' : Machine) : Prop where
  function : m'.function = m.function
  frames : m'.frames.map Frame.blank = m.frames.map Frame.blank
  pool : m'.pool = m.pool
  steps : m'.steps = m.steps
  height : m'.stack.size ≤ m.stack.size + k

theorem Machine.Grown.refl (k : Nat) (m : Machine) : m.Grown k m :=
  ⟨rfl, rfl, rfl, rfl, Nat.le_add_right _ k⟩

/-- Whether the action succeeds or fails, it begins and ends no call, and leaves at most `k` values
more on the stack. -/
def Action.Grows {α : Type} (k : Nat) (x : Action α) : Prop :=
  ∀ m, Ends x m (fun _ m' => m.Grown k m') fun _ m' => m.Grown k m'

namespace Action.Grows

variable {α β : Type} {k : Nat}

theorem pure (a : α) : Grows k (pure a) := fun m => .refl k m

theorem throw (fault : Fault) : Grows k (throw fault : Action α) := fun m => .refl k m

/-- An instruction leaves its value on the stack at the end. -/
theorem bind {x : Action α} {cont : α → Action β} (hx : Grows 0 x) (hcont : ∀ a, Grows k (cont a)) :
    Grows k (x >>= cont) := by
  have htrans : ∀ {m m₁ m' : Machine}, m.Grown 0 m₁ → m₁.Grown k m' → m.Grown k m' :=
    fun h h' => ⟨h'.function.trans h.function, h'.frames.trans h.frames, h'.pool.trans h.pool,
      h'.steps.trans h.steps, Nat.le_trans h'.height (Nat.add_le_add_right h.height k)⟩
  intro m
  refine .bind ((hx m).mono (fun a m₁ h => ?_) fun _ m₁ h => htrans h (.refl k m₁))
  exact (hcont a m₁).mono (fun _ _ h' => htrans h h') fun _ _ h' => htrans h h'

/-! ### The stack and the heap -/

theorem push (v : Value) : Grows 1 (push v) := fun _ =>
  ⟨rfl, rfl, rfl, rfl, Nat.le_of_eq (Array.size_push _)⟩

theorem pop : Grows k pop := by
  intro m
  unfold Ends Action.pop
  split
  · rename_i heq
    split at heq
    · cases heq
      refine ⟨rfl, rfl, rfl, rfl, ?_⟩
      rw [Array.size_pop]
      omega
    · cases heq
  · rename_i heq
    split at heq
    · cases heq
    · cases heq
      exact .refl k m

theorem size_shrink (stack : Array Value) (n : Nat) : (stack.shrink n).size ≤ stack.size := by
  rw [Array.shrink_eq_take, Array.take_eq_extract, Array.size_extract]
  omega

theorem popMany (n : Nat) : Grows k (popMany n) := by
  intro m
  unfold Ends Action.popMany
  dsimp only
  by_cases hsize : m.stack.size < n
  · rw [if_pos hsize]
    exact .refl k m
  · rw [if_neg hsize]
    exact ⟨rfl, rfl, rfl, rfl, Nat.le_add_right_of_le (size_shrink _ _)⟩

theorem popTwo : Grows k popTwo := pop.bind fun _ => pop.bind fun _ => pure _

theorem onHeap (x : OnHeap Fault α) : Grows k (onHeap x) := by
  intro m
  unfold Ends Action.onHeap
  dsimp only
  cases x m.heap with
  | ok a h => exact ⟨rfl, rfl, rfl, rfl, Nat.le_add_right _ k⟩
  | error e h => exact ⟨rfl, rfl, rfl, rfl, Nat.le_add_right _ k⟩

theorem ask (f : Heap → Except Fault α) : Grows k (ask f) := by
  intro m
  unfold Ends Action.ask
  cases f m.heap with
  | ok a => exact .refl k m
  | error e => exact .refl k m

theorem readCell (c : CellRef) : Grows k (readCell c) := fun m => .refl k m

theorem writeCell (c : CellRef) (v : Value) : Grows k (writeCell c v) := fun _ =>
  ⟨rfl, rfl, rfl, rfl, Nat.le_add_right _ k⟩

theorem print (v : Value) : Grows k (print v) := fun _ =>
  ⟨rfl, rfl, rfl, rfl, Nat.le_add_right _ k⟩

theorem jump (target : Option Nat) (offset : Nat) : Grows k (jump target offset) := by
  intro m
  unfold Ends Action.jump
  cases target with
  | some ip => exact ⟨rfl, rfl, rfl, rfl, Nat.le_add_right _ k⟩
  | none => exact .refl k m

/-! ### Tables, names and slots -/

theorem constant (i : Nat) : Grows k (constant i) := by
  intro m
  unfold Ends Action.constant
  cases m.function.constants[i]? with
  | some v => exact .refl k m
  | none => exact .refl k m

theorem name (i : Nat) : Grows k (name i) := by
  intro m
  unfold Ends Action.name
  cases m.function.names[i]? with
  | some n => exact .refl k m
  | none => exact .refl k m

theorem loadGlobal (n : String) : Grows k (loadGlobal n) := by
  intro m
  unfold Ends Action.loadGlobal
  cases m.globals.get? n with
  | some v => exact .refl k m
  | none => exact .refl k m

theorem storeGlobal (n : String) (v : Value) : Grows k (storeGlobal n v) := fun _ =>
  ⟨rfl, rfl, rfl, rfl, Nat.le_add_right _ k⟩

theorem slot (i : Nat) : Grows k (slot i) := by
  intro m
  unfold Ends Action.slot
  cases m.frames.back? with
  | none => exact .refl k m
  | some frame =>
    dsimp only
    cases frame.locals[i]? with
    | some v => exact .refl k m
    | none => exact .refl k m

theorem setSlot (i : Nat) (v : Value) : Grows k (setSlot i v) := by
  intro m
  refine ⟨rfl, Array.ext_getElem? fun j => ?_, rfl, rfl, Nat.le_add_right _ k⟩
  rw [Array.getElem?_map, Array.getElem?_map, Array.getElem?_modify]
  split
  · rw [Option.map_map]
    exact Option.map_congr fun frame _ => frame.blank_setLocal i v
  · rfl

theorem freeCell (i : Nat) : Grows k (freeCell i) := by
  intro m
  unfold Ends Action.freeCell
  cases m.frames.back? with
  | none => exact .refl k m
  | some frame =>
    dsimp only
    cases frame.cells[i]? with
    | some c => exact .refl k m
    | none => exact .refl k m

theorem loadFast (i : Nat) : Grows k (loadFast i) := by
  refine (slot i).bind fun v => ?_
  split
  · exact readCell _
  · exact pure _

theorem storeFast (i : Nat) (v : Value) : Grows k (storeFast i v) := by
  refine (slot i).bind fun w => ?_
  split
  · exact writeCell _ v
  · exact setSlot i v

theorem makeCell (i source : Nat) : Grows k (makeCell i source) := by
  unfold Action.makeCell
  split
  · refine (slot i).bind fun v => ?_
    split
    · exact pure _
    · exact (onHeap _).bind fun c => (setSlot i _).bind fun _ => pure c
  · exact freeCell i
  · exact throw _

theorem makeClosure (i count : Nat) : Grows k (makeClosure i count) := by
  refine (constant i).bind fun v => ?_
  split
  · exact (popMany count).bind fun values => (ask _).bind fun cells => (onHeap _).bind fun id =>
      pure _
  · exact throw _

/-! ### Jumps and calls of builtins -/

theorem jumpIf (expected : Bool) (ins : Instruction) (offset : Nat) :
    Grows k (jumpIf expected ins offset) := by
  refine pop.bind fun v => (ask _).bind fun holds => ?_
  split
  · exact jump _ offset
  · exact pure ()

theorem callBuiltin (s : Surroundings) (b : Builtin) (args : Array Value) :
    Grows 1 (callBuiltin s b args) := by
  intro m
  refine .callBuiltin (fun _ _ _ _ _ => ?_) fun _ _ _ _ => ?_
  · exact ⟨rfl, rfl, rfl, rfl, Nat.le_add_right _ 1⟩
  · exact ⟨rfl, rfl, rfl, rfl, Nat.le_of_eq (Array.size_push _)⟩

/-- An instruction that begins and ends no call leaves at most one value more. -/
theorem execute {s : Surroundings} {offset : Nat} {ins : Instruction} (hcall : ins.op ≠ .call)
    (hreturn : ins.op ≠ .returnValue) : Grows 1 (execute s offset ins) := by
  obtain ⟨op, operands⟩ := ins
  cases op with
  | nop | halt => exact .pure ()
  | popTop => exact .bind .pop fun _ => .pure ()
  | print => exact .bind .pop fun v => .print v
  | pushNil | pushTrue | pushFalse => exact .push _
  | loadConst => exact .bind (.constant _) fun v => .push v
  | loadFast => exact .bind (.loadFast _) fun v => .push v
  | storeFast => exact .bind .pop fun v => .storeFast _ v
  | loadGlobal | loadName =>
    exact .bind (.name _) fun n => .bind (.loadGlobal n) fun v => .push v
  | storeGlobal | storeName =>
    exact .bind (.name _) fun n => .bind .pop fun v => .storeGlobal n v
  | loadFree => exact .bind (.freeCell _) fun c => .bind (.readCell c) fun v => .push v
  | storeFree => exact .bind .pop fun v => .bind (.freeCell _) fun c => .writeCell c v
  | makeCell => exact .bind (.makeCell _ _) fun c => .push _
  | loadClosure => exact .bind (.makeClosure _ _) fun v => .push v
  | buildList => exact .bind (.popMany _) fun items => .bind (.onHeap _) fun v => .push v
  | buildMap | buildSet =>
    exact .bind (.popMany _) fun parts => .bind (.ask _) fun found => .bind (.onHeap _) fun v =>
      .push v
  | binarySubscr => exact .bind .popTwo fun _ => .bind (.ask _) fun v => .push v
  | storeSubscr => exact .bind .popTwo fun _ => .bind .pop fun v => .onHeap _
  | deleteSubscr => exact .bind .popTwo fun _ => .onHeap _
  | loadAttr =>
    exact .bind (.name _) fun n => .bind .pop fun object => .bind (.ask _) fun v => .push v
  | storeAttr =>
    exact .bind (.name _) fun n => .bind .pop fun object => .bind .pop fun v => .onHeap _
  | binaryOp =>
    unfold Action.execute
    dsimp only
    split
    · exact .throw _
    · exact .bind .popTwo fun _ => .bind (.onHeap _) fun v => .push v
  | compareOp =>
    unfold Action.execute
    dsimp only
    split
    · exact .throw _
    · exact .bind .popTwo fun _ => .bind (.ask _) fun v => .push v
  | unaryNegative | unaryPositive | unaryInvert =>
    exact .bind .pop fun v => .bind (.ask _) fun w => .push w
  | unaryNot => exact .bind .pop fun v => .bind (.ask _) fun holds => .push _
  | jumpForward => exact jump (Instruction.target? ⟨.jumpForward, operands⟩ offset) offset
  | jumpBackward => exact jump (Instruction.target? ⟨.jumpBackward, operands⟩ offset) offset
  | popJumpForwardIfTrue | popJumpBackwardIfTrue => exact .jumpIf true _ offset
  | popJumpForwardIfFalse | popJumpBackwardIfFalse => exact .jumpIf false _ offset
  | call => exact absurd rfl hcall
  | returnValue => exact absurd rfl hreturn

end Action.Grows

/-! ## What stays within bounds -/

/-- The frames of a run of the function, of which at most `depth` are in use or kept for later. The
innermost one is that of the active function. -/
structure Machine.Framed (depth : Nat) (main : Routine Value) (m : Machine) : Prop where
  bottom : ∃ frame, m.frames[0]? = some frame ∧ frame.Outermost main
  pooled : m.frames.size + m.pool.length ≤ depth
  active : ∃ frame, m.frames.back? = some frame ∧ frame.function = m.function

/-- The frames are in order, as many steps have been taken, and the stack is no higher than this. -/
structure Machine.Bounded (depth : Nat) (main : Routine Value) (steps height : Nat) (m : Machine) :
    Prop extends m.Framed depth main where
  steps : m.steps = steps
  height : m.stack.size ≤ height

section
variable {s : Surroundings} {main : Routine Value} {depth steps height k : Nat} {m m' : Machine}

theorem Machine.Framed.grown (hm : m.Framed depth main) (h : m.Grown k m') :
    m'.Framed depth main := by
  have hsize : m'.frames.size = m.frames.size := by
    have hsize := congrArg Array.size h.frames
    rwa [Array.size_map, Array.size_map] at hsize
  have hframe : ∀ (i : Nat) frame, m.frames[i]? = some frame →
      ∃ frame', m'.frames[i]? = some frame' ∧ frame'.blank = frame.blank := by
    intro i frame hi
    have hmapped : (m'.frames.map Frame.blank)[i]? = (m.frames.map Frame.blank)[i]? :=
      congrArg (fun frames => frames[i]?) h.frames
    rw [Array.getElem?_map, Array.getElem?_map, hi] at hmapped
    exact Option.map_eq_some_iff.1 hmapped
  obtain ⟨frame, hbottom, houtermost⟩ := hm.bottom
  obtain ⟨bottom, hbottom', hblank⟩ := hframe 0 frame hbottom
  obtain ⟨last, hlast, hfunction⟩ := hm.active
  rw [Array.back?_eq_getElem?] at hlast
  obtain ⟨active, hactive, hblank'⟩ := hframe _ last hlast
  have hsame : active.function = m.function := (congrArg Frame.function hblank').trans hfunction
  refine ⟨⟨bottom, hbottom', houtermost.of_blank hblank⟩, ?_, active, ?_,
    hsame.trans h.function.symm⟩
  · rw [hsize, h.pool]
    exact hm.pooled
  · rw [Array.back?_eq_getElem?, hsize]
    exact hactive

theorem Machine.Bounded.grown (hm : m.Bounded depth main steps height) (h : m.Grown k m') :
    m'.Bounded depth main steps (height + k) :=
  ⟨hm.toFramed.grown h, h.steps.trans hm.steps,
    Nat.le_trans h.height (Nat.add_le_add_right hm.height k)⟩

theorem Machine.Bounded.loosen (hm : m.Bounded depth main steps height) :
    m.Bounded depth main steps (height + 1) :=
  ⟨hm.toFramed, hm.steps, Nat.le_succ_of_le hm.height⟩

/-- A call takes an unused frame, or a new one if it may. -/
theorem Machine.Bounded.enter (hm : m.Bounded depth main steps height)
    (hdepth : s.settings.maxCallDepth ≤ depth) (f : Routine Value) (cells : Array CellRef)
    (args : Array Value) :
    Action.Ends (Action.enter s f cells args) m (fun _ m' => m'.Bounded depth main steps height)
      fun _ m' => m'.Bounded depth main steps height := by
  unfold Action.Ends Action.enter
  by_cases harity : args.size ≠ f.arity
  · rw [if_pos harity]
    exact hm
  rw [if_neg harity]
  by_cases hlimit : s.settings.maxCallDepth ≤ m.frames.size
  · rw [if_pos hlimit]
    exact hm
  rw [if_neg hlimit]
  obtain ⟨bottom, hbottom, houtermost⟩ := hm.bottom
  have hpushed : ∀ frame : Frame, (m.frames.push frame)[0]? = some bottom := by
    intro frame
    obtain ⟨hpos, -⟩ := Array.getElem?_eq_some_iff.1 hbottom
    rw [Array.getElem?_push_lt hpos, ← hbottom, Array.getElem?_eq_getElem hpos]
  refine ⟨⟨⟨bottom, hpushed _, houtermost⟩, ?_, _, Array.back?_push, rfl⟩, hm.steps, hm.height⟩
  have hpooled := hm.pooled
  rw [Array.size_push]
  cases hpool : m.pool with
  | nil =>
    show m.frames.size + 1 + 0 ≤ depth
    omega
  | cons unused rest =>
    show m.frames.size + 1 + rest.length ≤ depth
    rw [hpool, List.length_cons] at hpooled
    omega

theorem Machine.Bounded.call (hm : m.Bounded depth main steps height)
    (hdepth : s.settings.maxCallDepth ≤ depth) (count : Nat) :
    Action.Ends (Action.call s count) m (fun _ m' => m'.Bounded depth main steps (height + 1))
      fun _ m' => m'.Bounded depth main steps (height + 1) := by
  refine .bind ((Action.Grows.popMany (k := 0) (count + 1) m).mono (fun values m₁ h => ?_)
    fun _ m₁ h => (hm.grown h).loosen)
  have hm₁ : m₁.Bounded depth main steps height := hm.grown h
  dsimp only
  split
  · exact (hm₁.enter hdepth _ _ _).mono (fun _ _ => loosen) fun _ _ => loosen
  · exact (hm₁.enter hdepth _ _ _).mono (fun _ _ => loosen) fun _ _ => loosen
  · exact (Action.Grows.callBuiltin s _ _ m₁).mono (fun _ _ h => hm₁.grown h)
      fun _ _ h => hm₁.grown h
  · exact hm₁.loosen

/-- A return keeps the frame for later. The frame at the bottom is never returned from. -/
theorem Machine.Bounded.leave (hm : m.Bounded depth main steps height) (v : Value) :
    Action.Ends (Action.leave v) m (fun _ m' => m'.Bounded depth main steps (height + 1))
      fun _ m' => m'.Bounded depth main steps (height + 1) := by
  unfold Action.Ends Action.leave
  by_cases hmain : m.frames.size ≤ 1
  · rw [if_pos hmain]
    exact hm.loosen
  rw [if_neg hmain]
  cases hback : m.frames.back? with
  | none => exact hm.loosen
  | some frame =>
    obtain ⟨callers, hframes⟩ := Array.back?_eq_some_iff.1 hback
    have hsize : m.frames.size = callers.size + 1 := by rw [hframes, Array.size_push]
    dsimp only
    rw [hframes, Array.pop_push]
    cases hcaller : callers.back? with
    | none => exact hm.loosen
    | some caller =>
      dsimp only
      obtain ⟨bottom, hbottom, houtermost⟩ := hm.bottom
      rw [hframes, Array.getElem?_push_lt (by omega)] at hbottom
      refine ⟨⟨⟨bottom, ?_, houtermost⟩, ?_, caller, hcaller, rfl⟩, hm.steps, ?_⟩
      · rw [← hbottom, Array.getElem?_eq_getElem]
      · have hpooled := hm.pooled
        show callers.size + (m.pool.length + 1) ≤ depth
        omega
      · rw [Array.size_push]
        exact Nat.succ_le_succ (Nat.le_trans (Action.Grows.size_shrink _ _) hm.height)

theorem Machine.Bounded.execute (hm : m.Bounded depth main steps height)
    (hdepth : s.settings.maxCallDepth ≤ depth) (offset : Nat) (ins : Instruction) :
    Action.Ends (Action.execute s offset ins) m
      (fun _ m' => m'.Bounded depth main steps (height + 1))
      fun _ m' => m'.Bounded depth main steps (height + 1) := by
  by_cases hcall : ins.op = .call
  · obtain ⟨op, operands⟩ := ins
    obtain rfl : op = .call := hcall
    exact hm.call hdepth _
  by_cases hreturn : ins.op = .returnValue
  · obtain ⟨op, operands⟩ := ins
    obtain rfl : op = .returnValue := hreturn
    unfold Action.execute
    dsimp only
    split
    · refine .bind ((Action.Grows.pop (k := 0) m).mono (fun v m₁ h => ?_) fun _ m₁ h => ?_)
      · have hm₁ : m₁.Bounded depth main steps height := hm.grown h
        exact hm₁.leave v
      · exact (hm.grown h).loosen
    · exact hm.leave .nil
  · exact (Action.Grows.execute hcall hreturn m).mono (fun _ _ h => hm.grown h)
      fun _ _ h => hm.grown h

/-! ## Steps and runs -/

/-- A step is counted even if it fails, and is not begun if the stack is too high or a limit on the
steps has been reached. -/
theorem Machine.Bounded.step
    (hm : m.Bounded depth main steps (s.settings.maxStackSize + 1))
    (hdepth : s.settings.maxCallDepth ≤ depth) :
    Action.Ends (Action.step s) m
      (fun _ m' => m'.Bounded depth main (steps + 1) (s.settings.maxStackSize + 1) ∧
        ∀ limit, s.settings.maxSteps = some limit → steps + 1 ≤ limit)
      fun _ m' => m'.Bounded depth main (steps + 1) (s.settings.maxStackSize + 1) := by
  have hcounted : ({ m with steps := m.steps + 1 } : Machine).Bounded depth main (steps + 1)
      (s.settings.maxStackSize + 1) :=
    ⟨⟨hm.bottom, hm.pooled, hm.active⟩, congrArg (· + 1) hm.steps, hm.height⟩
  unfold Action.Ends
  rcases Action.checkLimits_cases s.settings m with hok | ⟨fault, -, herror⟩
  · obtain ⟨hlimit, hheight, -⟩ := Action.checkLimits_eq_ok_iff.1 hok
    have hbegun : ∀ size, ({ m with steps := m.steps + 1, ip := m.ip + size } : Machine).Bounded
        depth main (steps + 1) s.settings.maxStackSize :=
      fun size => ⟨⟨hm.bottom, hm.pooled, hm.active⟩, congrArg (· + 1) hm.steps, hheight⟩
    have hbelow : ∀ limit, s.settings.maxSteps = some limit → steps + 1 ≤ limit :=
      fun limit h => hm.steps ▸ hlimit limit h
    rw [Action.step_of_counted hok]
    dsimp only
    cases decode m.function.code m.ip with
    | error e => exact hcounted
    | ok ins =>
      dsimp only
      by_cases hhalt : ins.op = .halt
      · rw [if_pos hhalt]
        exact ⟨(hbegun ins.size).loosen, hbelow⟩
      · rw [if_neg hhalt]
        have hends := (hbegun ins.size).execute hdepth m.ip ins
        unfold Action.Ends at hends
        split at hends
        · rename_i u m' hexecute
          rw [hexecute]
          exact ⟨hends, hbelow⟩
        · rename_i fault m' hexecute
          rw [hexecute]
          exact hends
  · rw [Action.step_of_limit herror]
    exact hcounted

end

/-- The machine that a run has left. -/
def Outcome.machine : Outcome → Machine
  | .halted m | .failed _ m | .running m => m

/-- As long as a run goes on, each of its steps has been allowed. When it ends, one more has been
counted. -/
theorem Machine.Bounded.run {s : Surroundings} {main : Routine Value} {depth steps : Nat}
    {m : Machine} (hm : m.Bounded depth main steps (s.settings.maxStackSize + 1))
    (hdepth : s.settings.maxCallDepth ≤ depth)
    (hsteps : ∀ limit, s.settings.maxSteps = some limit → steps ≤ limit) (fuel : Nat) :
    ∃ steps', (m.run s fuel).machine.Bounded depth main steps' (s.settings.maxStackSize + 1) ∧
      (∀ limit, s.settings.maxSteps = some limit → steps' ≤ limit + 1) ∧
      ∀ n, m.run s fuel = .running n →
        steps' = steps + fuel ∧ ∀ limit, s.settings.maxSteps = some limit → steps' ≤ limit := by
  induction fuel generalizing m steps with
  | zero =>
    exact ⟨steps, hm, fun limit h => Nat.le_succ_of_le (hsteps limit h), fun _ _ => ⟨rfl, hsteps⟩⟩
  | succ fuel ih =>
    have hends := hm.step hdepth
    unfold Action.Ends at hends
    rw [Machine.run]
    cases hstep : Action.step s m with
    | error fault m' =>
      rw [hstep] at hends
      exact ⟨steps + 1, hends, fun limit h => Nat.succ_le_succ (hsteps limit h),
        fun _ h => by cases h⟩
    | ok halted m' =>
      rw [hstep] at hends
      obtain ⟨hm', hbelow⟩ := hends
      cases halted with
      | true =>
        exact ⟨steps + 1, hm', fun limit h => Nat.le_succ_of_le (hbelow limit h),
          fun _ h => by cases h⟩
      | false =>
        obtain ⟨steps', hbounded, hlimit, hrunning⟩ := ih hm' hbelow
        refine ⟨steps', hbounded, hlimit, fun n hn => ?_⟩
        obtain ⟨hcount, hallowed⟩ := hrunning n hn
        exact ⟨by omega, hallowed⟩

theorem Machine.bounded_start (main : Routine Value) (offset : Nat) (globals : Globals)
    (heap : Heap) (world : World) {depth : Nat} (hdepth : 1 ≤ depth) (height : Nat) :
    (start main offset globals heap world).Bounded depth main 0 height :=
  ⟨⟨⟨Frame.new main 0 main.localCount, rfl, ⟨rfl, rfl, rfl, rfl, Array.size_replicate⟩⟩, hdepth,
    Frame.new main 0 main.localCount, rfl, rfl⟩, rfl, Nat.zero_le height⟩

/-- Whatever code runs and however far it has come, the frame of the main function is at the bottom,
there are at most as many frames, counting those that may be used again, as calls are allowed, the
active function is that of the last frame, and the stack is at most one value higher than allowed. A
run whose steps are limited ends, at the latest with the step after the last one that is allowed. -/
theorem resources_bounded (s : Surroundings) (main : Routine Value) (offset : Nat)
    (globals : Globals)
    (heap : Heap) (world : World) (fuel : Nat) :
    let run (steps : Nat) := (Machine.start main offset globals heap world).run s steps
    let m := (run fuel).machine
    (1 ≤ m.frames.size ∧ m.frames.size ≤ max 1 s.settings.maxCallDepth) ∧
    (∃ frame, m.frames[0]? = some frame ∧ frame.Outermost main) ∧
    m.frames.size + m.pool.length ≤ max 1 s.settings.maxCallDepth ∧
    (∃ frame, m.frames.back? = some frame ∧ frame.function = m.function) ∧
    m.stack.size ≤ s.settings.maxStackSize + 1 ∧
    ∀ limit, s.settings.maxSteps = some limit →
      m.steps ≤ limit + 1 ∧ ∀ n, run (limit + 1) ≠ .running n := by
  intro run m
  have hstart := Machine.bounded_start main offset globals heap world
    (Nat.le_max_left 1 s.settings.maxCallDepth) (s.settings.maxStackSize + 1)
  have hruns := hstart.run (Nat.le_max_right 1 _) fun _ _ => Nat.zero_le _
  obtain ⟨steps, hbounded, hlimit, -⟩ := hruns fuel
  obtain ⟨bottom, hbottom, houtermost⟩ := hbounded.bottom
  have hpos := (Array.getElem?_eq_some_iff.1 hbottom).1
  refine ⟨⟨hpos, Nat.le_trans (Nat.le_add_right _ _) hbounded.pooled⟩,
    ⟨bottom, hbottom, houtermost⟩, hbounded.pooled, hbounded.active, hbounded.height,
    fun limit h => ⟨?_, fun n hn => ?_⟩⟩
  · exact Nat.le_trans (Nat.le_of_eq hbounded.steps) (hlimit limit h)
  · obtain ⟨steps', -, -, hrunning⟩ := hruns (limit + 1)
    obtain ⟨hcount, hallowed⟩ := hrunning n hn
    have := hallowed limit h
    omega

/-- Code that does nothing but put values on the stack. -/
def pushForever : Routine Value where
  id := 0
  name := "main"
  params := #[]
  code := (([⟨.pushNil, []⟩, ⟨.jumpBackward, [4]⟩] : List Instruction).flatMap
    Instruction.encode).toArray
  constants := #[]
  names := #[]
  localCount := 0
  freeVariables := #[]
  scope := ⟨.topLevel, "main", #[]⟩

/-- The stack comes to be one value higher than allowed, and where that is high enough, the steps
are used up. -/
theorem resources_bounded_in_loop :
    ((Machine.start pushForever 0 .empty .empty (.start 0 0)).run
      ⟨⟨0, some 9, 2, true⟩, #[]⟩ 20).machine.stack.size = 2 + 1 ∧
    ((Machine.start pushForever 0 .empty .empty (.start 0 0)).run
      ⟨⟨0, some 9, 20, true⟩, #[]⟩ 20).machine.steps = 9 + 1 ∧
    ∀ n, (Machine.start pushForever 0 .empty .empty (.start 0 0)).run
      ⟨⟨0, some 9, 20, true⟩, #[]⟩ (9 + 1) ≠ .running n := by
  refine ⟨by decide +kernel, by decide +kernel, ?_⟩
  have hbounds := resources_bounded ⟨⟨0, some 9, 20, true⟩, #[]⟩ pushForever 0 .empty .empty
    (.start 0 0) 20
  exact (hbounds.2.2.2.2.2 9 rfl).2

end Ember
