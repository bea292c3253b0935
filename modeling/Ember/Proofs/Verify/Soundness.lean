import Ember.Proofs.Machine.Frames
import Ember.Proofs.Machine.Steps
import Ember.Proofs.Verify.Acceptance

/-! Code that the verifier accepts runs as the verifier foresees: at every step of a run the stack
of the active call has the height that was recorded for the offset, and no run meets a fault of
malformed code. Functions that come from elsewhere have to be accepted, too, and to carry their
cells. -/
namespace Ember
set_option autoImplicit false

/-! ## Sound values -/

/-- On some path through the code an instruction with this opcode loads the function. -/
def Loads (f : Routine Value) (range : CodeRange) (op : Opcode) (g : Routine Value) : Prop :=
  ∃ pos ins, (recordedHeight f range pos).isSome = true ∧ decode f.code pos = .ok ins ∧
    ins.op = op ∧ f.constants[ins.operand 0]? = some (.function g)

mutual

/-- The code loads functions with free variables only to make closures of them, and so do the
functions that it loads; its other constants are sound. -/
inductive Disciplined : Routine Value → CodeRange → Prop
  | intro {f : Routine Value} {range : CodeRange}
      (bare : ∀ g, Loads f range .loadConst g → g.freeVariables.size = 0)
      (loaded : ∀ g, Loads f range .loadConst g → Disciplined g g.range)
      (captured : ∀ g, Loads f range .loadClosure g → Disciplined g g.range)
      (others : ∀ v ∈ f.constants, (∀ g, v ≠ .function g) → SoundValue v.core) :
      Disciplined f range

/-- A function is accepted by the verifier and carries as many cells as it has free variables. -/
inductive SoundValue : Value → Prop
  | plain {v : Value} (h : v.isPlain = true) : SoundValue v
  | cell (c : CellRef) : SoundValue (.cell c)
  | function {g : Routine Value} (haccepted : verifyCode g g.range = .ok ())
      (hdisciplined : Disciplined g g.range) (hcells : g.freeVariables.size = 0) :
      SoundValue (.function g)
  | closure {id : Nat} {g : Routine Value} {cells : Array CellRef}
      (haccepted : verifyCode g g.range = .ok ()) (hdisciplined : Disciplined g g.range)
      (hcells : cells.size = g.freeVariables.size) : SoundValue (.closure id g cells)

end

/-- Only sound functions and closures. -/
def soundness : Policy := ⟨SoundValue, fun _ h _ => .plain h⟩

/-- Whatever sound values the functions of a host are given, they give sound values. -/
def SoundHost (host : Array HostFunction) : Prop :=
  ∀ f ∈ host, ∀ args s, (∀ v ∈ args, v.Obeys soundness) → s.heap.Obeys soundness →
    (f.run args s).1.Obeys soundness ∧ (f.run args s).2.heap.Obeys soundness

theorem SoundHost.call {host : Array HostFunction} (hhost : SoundHost host) (b : Builtin)
    {args : Array Value} (hargs : ∀ v ∈ args, v.Obeys soundness) {s : CallState}
    (hheap : s.heap.Obeys soundness) :
    (b.call host args s).1.Obeys soundness ∧ (b.call host args s).2.heap.Obeys soundness :=
  ObedientHost.call hhost b hargs hheap

/-! ## Frames -/

/-- The code of the active call is accepted, and the verifier has recorded for the offset the height
that the stack has above the frame. -/
structure Placed (frame : Frame) (range : CodeRange) (ip height : Nat) : Prop where
  accepted : verifyCode frame.function range = .ok ()
  disciplined : Disciplined frame.function range
  slots : frame.function.localCount ≤ frame.locals.size
  captured : frame.function.scope.kind = .function →
    frame.cells.size = frame.function.freeVariables.size
  locals : ∀ v ∈ frame.locals, v.Obeys soundness
  base : frame.base ≤ height
  recorded : recordedHeight frame.function range ip = some (height - frame.base)

/-- The stretch of code that a call runs: all of a function, or one chunk of the session. -/
def stretch (range : CodeRange) (frame : Frame) (callers : List Frame) : CodeRange :=
  if callers.isEmpty then range else frame.function.range

/-- The calls below the active one, innermost first: each will find the value of the call that it is
waiting for on the stack. The outermost one runs a chunk of the session. -/
def Awaits (main : Routine Value) (range : CodeRange) : List Frame → Frame → Prop
  | [], frame => frame.function = main
  | caller :: rest, frame =>
    Placed caller (stretch range caller rest) frame.resume (frame.base + 1) ∧
      Awaits main range rest caller

/-- What the verifier foresees of a run. -/
structure Machine.Foreseen (main : Routine Value) (range : CodeRange) (m : Machine) : Prop where
  calls : ∃ (frame : Frame) (callers : Array Frame), m.frames = callers.push frame ∧
    m.function = frame.function ∧
    Placed frame (stretch range frame callers.toList.reverse) m.ip m.stack.size ∧
    Awaits main range callers.toList.reverse frame
  stack : ∀ v ∈ m.stack, v.Obeys soundness
  heap : m.heap.Obeys soundness
  globals : m.globals.Obeys soundness

/-- Only the function, the base and the place to go on matter to the callers. -/
theorem Awaits.congr {main : Routine Value} {range : CodeRange} {callers : List Frame}
    {frame frame' : Frame} (h : Awaits main range callers frame)
    (hfunction : frame'.function = frame.function) (hbase : frame'.base = frame.base)
    (hresume : frame'.resume = frame.resume) : Awaits main range callers frame' := by
  cases callers with
  | nil => exact hfunction.trans h
  | cons caller rest =>
    obtain ⟨hplaced, hrest⟩ := h
    rw [← hbase, ← hresume] at hplaced
    exact ⟨hplaced, hrest⟩

theorem stretch_congr {range : CodeRange} {callers : List Frame} {frame frame' : Frame}
    (h : frame'.function = frame.function) :
    stretch range frame' callers = stretch range frame callers := by
  unfold stretch
  rw [h]

/-- A call goes on at a place for which the new height was recorded. -/
theorem Placed.move {frame frame' : Frame} {range : CodeRange} {ip height ip' height' : Nat}
    (h : Placed frame range ip height) (hfunction : frame'.function = frame.function)
    (hbase : frame'.base = frame.base) (hcells : frame'.cells = frame.cells)
    (hslots : frame'.locals.size = frame.locals.size)
    (hlocals : ∀ v ∈ frame'.locals, v.Obeys soundness) (hle : frame.base ≤ height')
    (hrecorded : recordedHeight frame.function range ip' = some (height' - frame.base)) :
    Placed frame' range ip' height' := by
  refine ⟨?_, ?_, ?_, fun hkind => ?_, hlocals, ?_, ?_⟩
  · rw [hfunction]
    exact h.accepted
  · rw [hfunction]
    exact h.disciplined
  · rw [hfunction, hslots]
    exact h.slots
  · rw [hfunction] at hkind ⊢
    rw [hcells]
    exact h.captured hkind
  · rw [hbase]
    exact hle
  · rw [hfunction, hbase]
    exact hrecorded

/-! ## One step -/

/-- The machine is about to execute an instruction that the verifier has seen. -/
structure Machine.Executes (main : Routine Value) (range : CodeRange) (m : Machine) (frame : Frame)
    (callers : Array Frame) (offset : Nat) (ins : Instruction) (st args : Array Value) : Prop where
  frames : m.frames = callers.push frame
  function : m.function = frame.function
  ip : m.ip = offset + ins.size
  passes : Passes frame.function (stretch range frame callers.toList.reverse) offset
    (m.stack.size - frame.base) ins
  placed : Placed frame (stretch range frame callers.toList.reverse) offset m.stack.size
  awaits : Awaits main range callers.toList.reverse frame
  stack : m.stack = st ++ args
  taken : args.size = ins.pops
  below : ∀ v ∈ st, v.Obeys soundness
  above : ∀ v ∈ args, v.Obeys soundness
  heap : m.heap.Obeys soundness
  globals : m.globals.Obeys soundness

namespace Machine.Executes

variable {main : Routine Value} {range : CodeRange} {m m' : Machine} {frame frame' : Frame}
  {callers : Array Frame} {offset i : Nat} {ins : Instruction} {operands : List Nat}
  {st args : Array Value} {v : Value} {s : Surroundings}

theorem base_le (h : m.Executes main range frame callers offset ins st args) :
    frame.base ≤ st.size := by
  have hsize := congrArg Array.size h.stack
  have := h.passes.pops
  have := h.placed.base
  have := h.taken
  rw [Array.size_append] at hsize
  omega

/-- The height that the instruction leaves. -/
theorem heightAfter_eq (h : m.Executes main range frame callers offset ins st args) :
    ins.heightAfter (m.stack.size - frame.base) = st.size + ins.pushes - frame.base := by
  have hsize := congrArg Array.size h.stack
  have := h.base_le
  have := h.taken
  rw [Array.size_append] at hsize
  unfold Instruction.heightAfter
  omega

/-- The call goes on, with what the instruction pushes on the stack. -/
theorem foreseen (h : m.Executes main range frame callers offset ins st args)
    (hframes : m'.frames = callers.push frame') (hfunction : m'.function = frame.function)
    (hfunction' : frame'.function = frame.function) (hbase : frame'.base = frame.base)
    (hcells : frame'.cells = frame.cells) (hresume : frame'.resume = frame.resume)
    (hslots : frame'.locals.size = frame.locals.size)
    (hlocals : ∀ v ∈ frame'.locals, v.Obeys soundness)
    (hip : (ins.fallsThrough = true ∧ m'.ip = m.ip) ∨ ins.target? offset = some m'.ip)
    {pushed : Array Value} (hstack : m'.stack = st ++ pushed) (hpushed : pushed.size = ins.pushes)
    (hobeys : ∀ v ∈ pushed, v.Obeys soundness) (hheap : m'.heap.Obeys soundness)
    (hglobals : m'.globals.Obeys soundness) : m'.Foreseen main range := by
  have hrecorded : recordedHeight frame.function
      (stretch range frame callers.toList.reverse) m'.ip = some (m'.stack.size - frame.base) := by
    rw [hstack, Array.size_append, hpushed, ← h.heightAfter_eq]
    rcases hip with ⟨hfalls, hip⟩ | ht
    · rw [hip, h.ip]
      exact h.passes.falls hfalls
    · have hjump : ins.op.isJump = true := by
        unfold Instruction.target? at ht
        split at ht
        · assumption
        · cases ht
      obtain ⟨t, ht', hrecorded⟩ := h.passes.lands hjump
      rw [ht] at ht'
      rwa [Option.some.inj ht']
  have hbelow := h.base_le
  refine ⟨⟨frame', callers, hframes, hfunction.trans hfunction'.symm, ?_, ?_⟩, ?_, hheap, hglobals⟩
  · rw [stretch_congr hfunction']
    refine h.placed.move hfunction' hbase hcells hslots hlocals ?_ hrecorded
    rw [hstack, Array.size_append]
    omega
  · exact h.awaits.congr hfunction' hbase hresume
  · intro v hv
    rw [hstack] at hv
    rcases Array.mem_append.1 hv with hv | hv
    · exact h.below v hv
    · exact hobeys v hv

/-- The frame stays as it is. -/
theorem goesOn (h : m.Executes main range frame callers offset ins st args)
    (hframes : m'.frames = m.frames) (hfunction : m'.function = m.function)
    (hip : (ins.fallsThrough = true ∧ m'.ip = m.ip) ∨ ins.target? offset = some m'.ip)
    {pushed : Array Value} (hstack : m'.stack = st ++ pushed) (hpushed : pushed.size = ins.pushes)
    (hobeys : ∀ v ∈ pushed, v.Obeys soundness) (hheap : m'.heap.Obeys soundness)
    (hglobals : m'.globals.Obeys soundness) : m'.Foreseen main range :=
  h.foreseen (hframes.trans h.frames) (hfunction.trans h.function) rfl rfl rfl rfl rfl
    h.placed.locals hip hstack hpushed hobeys hheap hglobals

theorem serves (h : m.Executes main range frame callers offset ins st args) :
    m.Serves soundness frame offset ins where
  decoded := h.function ▸ h.passes.decoded
  operands := h.function ▸ h.passes.operands
  place := h.function ▸ h.passes.place
  lands hjump := by
    obtain ⟨t, ht, -⟩ := h.passes.lands hjump
    exact ⟨t, ht⟩
  active := by rw [h.frames, Array.back?_push]
  slots := h.function ▸ h.placed.slots
  captured := h.function ▸ h.placed.captured
  locals v hv := .inl (h.placed.locals v hv)
  heap := h.heap
  globals := h.globals

/-- A function that is loaded is accepted. -/
theorem loads (h : m.Executes main range frame callers offset ins st args) {g : Routine Value}
    (hop : ins.op = .loadConst ∨ ins.op = .loadClosure)
    (hg : m.function.constants[ins.operand 0]? = some (.function g)) :
    Loads frame.function (stretch range frame callers.toList.reverse) ins.op g ∧
      verifyCode g g.range = .ok () := by
  rw [h.function] at hg
  have hloads : frame.function.loaded? ins = some (ins.operand 0) := by
    unfold Routine.loaded?
    rcases hop with hop | hop
    · rw [hop, hg]
    · rw [hop, hg]
  refine ⟨⟨offset, ins, ?_, h.passes.decoded, rfl, hg⟩, ?_⟩
  · rw [h.placed.recorded]
    rfl
  · obtain ⟨ins', next, hins, -⟩ := (agree_recordedHeight h.placed.accepted).visit _ _
      h.placed.recorded
    obtain ⟨hdecoded, -⟩ := inspect_eq_ok_iff.1 hins
    rw [h.passes.decoded] at hdecoded
    cases hdecoded
    exact verifyCode_of_loaded h.placed.accepted h.placed.recorded hins hloads hg

theorem constant_obeys (h : m.Executes main range frame callers offset ins st args)
    (hop : ins.op = .loadConst) {v : Value}
    (hv : m.function.constants[ins.operand 0]? = some v) : v.Obeys soundness := by
  obtain ⟨hbare, hloaded, -, hothers⟩ := h.placed.disciplined
  by_cases hfunction : ∃ g, v = .function g
  · obtain ⟨g, rfl⟩ := hfunction
    obtain ⟨hloads, haccepted⟩ := h.loads (.inl hop) hv
    rw [hop] at hloads
    exact SoundValue.function haccepted (hloaded g hloads) (hbare g hloads)
  · refine hothers v ?_ fun g hg => hfunction ⟨g, hg⟩
    rw [← h.function]
    exact Array.mem_of_getElem? hv

theorem quiet (h : m.Executes main range frame callers offset ins st args)
    (hquiet : ins.op.isQuiet = true) :
    Action.Ends (Action.execute s offset ins) m (fun _ m' => m'.Foreseen main range)
      (fun fault _ => fault.isMalformed = false) := by
  have hends := execute_quiet s h.serves hquiet h.stack h.taken h.above
    fun hop v hv => h.constant_obeys hop hv
  refine hends.mono (fun _ m' hfollows => ?_) fun fault _ hbalks => hbalks.1.not_malformed
  obtain ⟨hundisturbed, ⟨pushed, hstack, hpushed, hobeys⟩, hip⟩ := hfollows
  exact h.goesOn hundisturbed.frames hundisturbed.function hip hstack hpushed hobeys
    hundisturbed.heap.obeys hundisturbed.globals

/-- What a slot is given is sound. -/
theorem setLocal (h : m.Executes main range frame callers offset ins st args)
    (hframes : m'.frames = callers.push (frame.setLocal i v)) (hfunction : m'.function = m.function)
    (hv : v.Obeys soundness) (hip : ins.fallsThrough = true ∧ m'.ip = m.ip)
    {pushed : Array Value} (hstack : m'.stack = st ++ pushed) (hpushed : pushed.size = ins.pushes)
    (hobeys : ∀ v ∈ pushed, v.Obeys soundness) (hheap : m'.heap.Obeys soundness)
    (hglobals : m'.globals.Obeys soundness) : m'.Foreseen main range := by
  refine h.foreseen hframes (hfunction.trans h.function) rfl rfl rfl rfl ?_ (fun w hw => ?_)
    (.inl hip) hstack hpushed hobeys hheap hglobals
  · exact Array.size_setIfInBounds
  · rcases Array.mem_or_eq_of_mem_setIfInBounds hw with hw | rfl
    · exact h.placed.locals w hw
    · exact hv

theorem storeFast (h : m.Executes main range frame callers offset ⟨.storeFast, operands⟩ st args) :
    Action.Ends (Action.execute s offset ⟨.storeFast, operands⟩) m
      (fun _ m' => m'.Foreseen main range) (fun fault _ => fault.isMalformed = false) := by
  obtain ⟨v, hv, hstack⟩ : ∃ v ∈ args, m.stack = st.push v := h.stack ▸ append_one h.taken
  have hslot := Array.getElem?_eq_getElem
    (Nat.lt_of_lt_of_le (lt_of_check h.passes.operands) h.placed.slots)
  refine .storeFast h.frames hstack hslot (fun c _ => ?_) fun _ => ?_
  · exact h.goesOn rfl rfl (.inl ⟨rfl, rfl⟩) (Array.append_empty).symm rfl nofun
      (h.heap.setCell c (h.above v hv)) h.globals
  · exact h.setLocal rfl rfl (h.above v hv) ⟨rfl, rfl⟩ (Array.append_empty).symm rfl nofun h.heap
      h.globals

/-- The cells that code in a function refers to are there. -/
theorem freeCell (h : m.Executes main range frame callers offset ins st args)
    (hplace : checkPlace .topLevel ins.op ≠ .ok ())
    (hi : ins.operand 0 < frame.function.freeVariables.size) :
    ∃ c, frame.cells[ins.operand 0]? = some c := by
  have hkind := kind_of_place h.passes.place hplace
  exact ⟨_, Array.getElem?_eq_getElem (h.placed.captured hkind ▸ hi)⟩

theorem storeFree (h : m.Executes main range frame callers offset ⟨.storeFree, operands⟩ st args) :
    Action.Ends (Action.execute s offset ⟨.storeFree, operands⟩) m
      (fun _ m' => m'.Foreseen main range) (fun fault _ => fault.isMalformed = false) := by
  obtain ⟨v, hv, hstack⟩ : ∃ v ∈ args, m.stack = st.push v := h.stack ▸ append_one h.taken
  obtain ⟨c, hc⟩ := h.freeCell nofun (lt_of_check h.passes.operands)
  exact .storeFree h.frames hstack hc (h.goesOn rfl rfl (.inl ⟨rfl, rfl⟩) (Array.append_empty).symm
    rfl nofun (h.heap.setCell c (h.above v hv)) h.globals)

theorem makeCell (h : m.Executes main range frame callers offset ⟨.makeCell, operands⟩ st args) :
    Action.Ends (Action.execute s offset ⟨.makeCell, operands⟩) m
      (fun _ m' => m'.Foreseen main range) (fun fault _ => fault.isMalformed = false) := by
  have hcell : ∀ c, ∀ v ∈ #[Value.cell c], v.Obeys soundness := by
    intro c v hv
    rw [List.mem_singleton.1 (Array.mem_toList_iff.2 hv)]
    exact SoundValue.cell c
  have hpush : ∀ v, m.stack.push v = st ++ #[v] := by
    intro v
    rw [h.stack, Array.size_eq_zero_iff.1 h.taken, Array.append_empty]
    rfl
  have hoperands := h.passes.operands
  unfold checkOperands at hoperands
  dsimp only at hoperands
  split at hoperands
  · rename_i hsource
    have hslot := Array.getElem?_eq_getElem
      (Nat.lt_of_lt_of_le (lt_of_check hoperands) h.placed.slots)
    refine .makeCell_slot h.frames hsource hslot (fun c _ => ?_) fun _ => ?_
    · exact h.goesOn rfl rfl (.inl ⟨rfl, rfl⟩) (hpush _) rfl (hcell c) h.heap h.globals
    · exact h.setLocal rfl rfl (SoundValue.cell _) ⟨rfl, rfl⟩ (hpush _) rfl (hcell _)
        (h.heap.newCell (h.placed.locals _ (Array.mem_of_getElem? hslot))) h.globals
  · rename_i hsource
    obtain ⟨c, hc⟩ := h.freeCell nofun (lt_of_check hoperands)
    exact .makeCell_free h.frames hsource hc
      (h.goesOn rfl rfl (.inl ⟨rfl, rfl⟩) (hpush _) rfl (hcell c) h.heap h.globals)
  · cases hoperands

theorem loadClosure
    (h : m.Executes main range frame callers offset ⟨.loadClosure, operands⟩ st args) :
    Action.Ends (Action.execute s offset ⟨.loadClosure, operands⟩) m
      (fun _ m' => m'.Foreseen main range) (fun fault _ => fault.isMalformed = false) := by
  have hoperands := h.serves.operands
  unfold checkOperands at hoperands
  dsimp only at hoperands
  split at hoperands
  · cases hoperands
  · rename_i g hg
    split at hoperands
    · rename_i hcount
      obtain ⟨hloads, haccepted⟩ := h.loads (.inr rfl) hg
      obtain ⟨-, -, hcaptured, -⟩ := h.placed.disciplined
      refine .loadClosure hg h.stack h.taken (fun cells hcells => ?_) fun _ hfault _ => hfault
      have hsize : cells.size = g.freeVariables.size := by
        have := congrArg Array.size hcells
        rw [Array.size_map, h.taken] at this
        exact this.symm.trans hcount
      refine h.goesOn rfl rfl (.inl ⟨rfl, rfl⟩) (Array.push_eq_append) rfl (fun v hv => ?_)
        h.heap.newId.obeys h.globals
      rw [List.mem_singleton.1 (Array.mem_toList_iff.2 hv)]
      exact SoundValue.closure haccepted (hcaptured g hloads) hsize
    · cases hoperands
  · cases hoperands

/-- A call of an accepted function begins at the start of its code. -/
theorem enter (h : m.Executes main range frame callers offset ins st args)
    (hpushes : ins.pushes = 1) (hfalls : ins.fallsThrough = true) {f : Routine Value}
    {cells : Array CellRef} {given : Array Value} (haccepted : verifyCode f f.range = .ok ())
    (hdisciplined : Disciplined f f.range) (hcells : cells.size = f.freeVariables.size)
    (hgiven : ∀ v ∈ given, v.Obeys soundness) :
    Action.Ends (Action.enter s f cells given) { m with stack := st }
      (fun _ m' => m'.Foreseen main range) (fun fault _ => fault.isMalformed = false) := by
  refine .enter (fun callee pool hbegins => ?_) fun _ hfault => hfault.not_malformed
  obtain ⟨rfl, rfl, hlocals, hresume, hbase⟩ := hbegins
  dsimp only at hresume hbase
  have hcallers : (callers.push frame).toList.reverse = frame :: callers.toList.reverse := by
    simp
  have hplaced : Placed callee (stretch range callee (callers.push frame).toList.reverse) 0
      st.size := by
    rw [hcallers]
    refine ⟨haccepted, hdisciplined, ?_, fun _ => hcells, fun v hv => ?_, ?_, ?_⟩
    · rw [hlocals, Array.size_append, Array.size_replicate]
      omega
    · rw [hlocals] at hv
      rcases Array.mem_append.1 hv with hv | hv
      · exact hgiven v hv
      · rw [Array.eq_of_mem_replicate hv]
        exact Value.obeys_of_plain rfl rfl
    · exact Nat.le_of_eq hbase
    · rw [hbase, Nat.sub_self]
      exact (agree_recordedHeight haccepted).start
  have hawaits : Awaits main range (callers.push frame).toList.reverse callee := by
    have hle := h.base_le
    rw [hcallers]
    refine ⟨h.placed.move rfl rfl rfl rfl h.placed.locals (by omega) ?_, h.awaits⟩
    rw [hresume, hbase, h.ip, h.passes.falls hfalls, h.heightAfter_eq, hpushes]
  refine ⟨⟨callee, callers.push frame, ?_, rfl, hplaced, hawaits⟩, h.below, h.heap, h.globals⟩
  show m.frames.push callee = _
  rw [h.frames]

theorem call (hhost : SoundHost s.host)
    (h : m.Executes main range frame callers offset ⟨.call, operands⟩ st args) :
    Action.Ends (Action.execute s offset ⟨.call, operands⟩) m
      (fun _ m' => m'.Foreseen main range) (fun fault _ => fault.isMalformed = false) := by
  have hgiven : ∀ v ∈ args.extract 1 args.size, v.Obeys soundness := by
    intro v hv
    exact h.above v (mem_of_mem_extract hv)
  have hcallee : (args.getD 0 .nil).Obeys soundness := by
    rw [Array.getD_eq_getD_getElem?]
    cases hv : args[0]? with
    | none => exact Value.obeys_of_plain rfl rfl
    | some v => exact h.above v (Array.mem_of_getElem? hv)
  refine .call h.stack h.taken (fun f hf => ?_) (fun id f cells hf => ?_) (fun id b hb => ?_)
    fun _ hfault => hfault.not_malformed
  · rw [hf] at hcallee
    cases hcallee with
    | plain hplain => cases hplain
    | function haccepted hdisciplined hcells =>
      exact h.enter rfl rfl haccepted hdisciplined hcells.symm hgiven
  · rw [hf] at hcallee
    cases hcallee with
    | plain hplain => cases hplain
    | closure haccepted hdisciplined hcells =>
      exact h.enter rfl rfl haccepted hdisciplined hcells hgiven
  · obtain ⟨hvalue, hheap⟩ := hhost.call b hgiven (s := ⟨m.heap, m.world⟩) h.heap
    refine .callBuiltin (fun kind message heap world _ => rfl) fun v heap world hcall => ?_
    dsimp only at hcall
    rw [hcall] at hvalue hheap
    refine h.goesOn rfl rfl (.inl ⟨rfl, rfl⟩) (Array.push_eq_append) rfl (fun w hw => ?_) hheap
      h.globals
    rw [List.mem_singleton.1 (Array.mem_toList_iff.2 hw)]
    exact hvalue

theorem returnValue (hmain : main.scope.kind = .topLevel)
    (h : m.Executes main range frame callers offset ⟨.returnValue, operands⟩ st args) :
    Action.Ends (Action.execute s offset ⟨.returnValue, operands⟩) m
      (fun _ m' => m'.Foreseen main range) (fun fault _ => fault.isMalformed = false) := by
  have hkind := kind_of_place h.passes.place nofun
  have hawaits := h.awaits
  have hbase := h.base_le
  -- the chunk of the session never returns, so somebody waits for the value
  obtain ⟨callers', caller, hcallers⟩ : ∃ (callers' : Array Frame) (caller : Frame),
      callers = callers'.push caller := by
    refine Array.exists_push_of_size_pos (Nat.pos_of_ne_zero fun hzero => ?_)
    rw [Array.size_eq_zero_iff.1 hzero] at hawaits
    rw [show frame.function = main from hawaits, hmain] at hkind
    cases hkind
  have hreverse : callers.toList.reverse = caller :: callers'.toList.reverse := by
    rw [hcallers]
    simp
  rw [hreverse] at hawaits
  obtain ⟨hplaced, hawaits⟩ := hawaits
  refine .returnValue (by rw [h.frames, hcallers]) h.stack h.taken
    (returnFlag_le_one h.passes.operands) fun v hv => ?_
  have hsize : ((st.shrink frame.base).push v).size = frame.base + 1 := by
    rw [Array.size_push, Array.shrink_eq_take, Array.size_extract]
    omega
  refine ⟨⟨caller, callers', rfl, rfl, ?_, hawaits⟩, fun w hw => ?_, h.heap, h.globals⟩
  · rw [hsize]
    exact hplaced
  · rcases Array.mem_push.1 hw with hw | rfl
    · rw [Array.shrink_eq_take] at hw
      exact h.below w (mem_of_mem_extract hw)
    · rcases hv with rfl | hv
      · exact Value.obeys_of_plain rfl rfl
      · exact h.above w hv

theorem execute (hmain : main.scope.kind = .topLevel) (hhost : SoundHost s.host)
    (h : m.Executes main range frame callers offset ins st args) (hhalt : ins.op ≠ .halt) :
    Action.Ends (Action.execute s offset ins) m (fun _ m' => m'.Foreseen main range)
      (fun fault _ => fault.isMalformed = false) := by
  by_cases hquiet : ins.op.isQuiet = true
  · exact h.quiet hquiet
  · obtain ⟨op, operands⟩ := ins
    cases op with
    | storeFast => exact h.storeFast
    | storeFree => exact h.storeFree
    | makeCell => exact h.makeCell
    | loadClosure => exact h.loadClosure
    | call => exact h.call hhost
    | returnValue => exact h.returnValue hmain
    | halt => exact absurd rfl hhalt
    | _ => exact absurd rfl hquiet

end Machine.Executes

section
variable {main : Routine Value} {range : CodeRange} {m : Machine} {s : Surroundings}

theorem Machine.Foreseen.step (hmain : main.scope.kind = .topLevel) (hhost : SoundHost s.host)
    (h : m.Foreseen main range) :
    Action.Ends (Action.step s) m (fun halted m' => halted = false → m'.Foreseen main range)
      (fun fault _ => fault.isMalformed = false) := by
  obtain ⟨⟨frame, callers, hframes, hfunction, hplaced, hawaits⟩, hstack, hheap, hglobals⟩ := h
  obtain ⟨ins, hpasses⟩ := exists_passes hplaced.accepted hplaced.recorded
  refine .bind (.checkLimits (.bind (.fetch (hfunction ▸ hpasses.decoded) ?_))
    fun _ hfault => hfault.not_malformed)
  dsimp only
  by_cases hhalt : ins.op = .halt
  · rw [if_pos hhalt]
    exact .pure nofun
  · rw [if_neg hhalt]
    have hpops := hpasses.pops
    have hsplit : m.stack = m.stack.extract 0 (m.stack.size - ins.pops) ++
        m.stack.extract (m.stack.size - ins.pops) m.stack.size := by
      rw [Array.extract_append_extract]
      simp
    refine .bind (.mono (Machine.Executes.execute hmain hhost
      ⟨hframes, hfunction, rfl, hpasses, hplaced, hawaits, hsplit, ?_, fun v hv => ?_,
        fun v hv => ?_, hheap, hglobals⟩ hhalt) (fun _ m' h => .pure fun _ => h) fun _ _ h => h)
    · rw [Array.size_extract]
      omega
    · exact hstack v (mem_of_mem_extract hv)
    · exact hstack v (mem_of_mem_extract hv)

/-! ## Runs -/

theorem foreseen_start {globals : Globals} {heap : Heap} (world : World)
    (hmain : main.scope.kind = .topLevel) (haccepted : verifyCode main range = .ok ())
    (hdisciplined : Disciplined main range) (hglobals : globals.Obeys soundness)
    (hheap : heap.Obeys soundness) :
    (Machine.start main range.start globals heap world).Foreseen main range := by
  refine ⟨⟨Frame.new main 0 main.localCount, #[], rfl, rfl, ?_, rfl⟩, nofun, hheap, hglobals⟩
  refine ⟨haccepted, hdisciplined, ?_, fun hkind => ?_, fun v hv => ?_, Nat.le_refl 0, ?_⟩
  · exact Nat.le_of_eq Array.size_replicate.symm
  · rw [show main.scope.kind = .function from hkind] at hmain
    cases hmain
  · rw [Array.eq_of_mem_replicate hv]
    exact Value.obeys_of_plain rfl rfl
  · exact (agree_recordedHeight haccepted).start

/-- What a run of any length can come to. -/
theorem Machine.Foreseen.run (hmain : main.scope.kind = .topLevel) (hhost : SoundHost s.host)
    (h : m.Foreseen main range) (fuel : Nat) :
    match m.run s fuel with
    | .halted _ => True
    | .failed failure _ => failure.fault.isMalformed = false
    | .running m' => m'.Foreseen main range := by
  induction fuel generalizing m with
  | zero => exact h
  | succ fuel ih =>
    have hstep := h.step hmain hhost
    unfold Action.Ends at hstep
    rw [Machine.run]
    cases hr : Action.step s m with
    | error fault m' =>
      rw [hr] at hstep
      exact hstep
    | ok halted m' =>
      rw [hr] at hstep
      cases halted with
      | true => trivial
      | false => exact ih (hstep rfl)

end

end Ember
