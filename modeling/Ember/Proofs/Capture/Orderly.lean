import Ember.Proofs.Capture.Closures

/-! Compiled code never fails for reasons that lie in the code. Its stack has what each instruction
takes, its calls have somebody to return to, its closures are made of cells, and no value that tells
of malformed code comes up, unless the host makes one. -/
namespace Ember
set_option autoImplicit false

/-- No value that tells of malformed code. -/
def orderly : Policy := ⟨fun v => v.isCodeError = false, fun _ _ h => h⟩

/-- Nowhere does the machine hold a value that tells of malformed code. -/
structure Machine.Orderly (m : Machine) : Prop where
  stack : ∀ v ∈ m.stack, v.Obeys orderly
  locals : ∀ frame ∈ m.frames, ∀ v ∈ frame.locals, v.Obeys orderly
  heap : m.heap.Obeys orderly
  globals : m.globals.Obeys orderly

/-- The run has failed, but not because of the code, and what it leaves is orderly. -/
structure Excused (fault : Fault) (m : Machine) : Prop where
  fault : fault.Ordinary
  heap : m.heap.Obeys orderly
  globals : m.globals.Obeys orderly

theorem Fault.ordinary_raised {kind : ErrorKind} {message : String}
    (h : (Value.error kind message).Obeys orderly) : (Fault.raised kind message).Ordinary := by
  cases kind <;> first | rfl | cases h

namespace Machine.Orderly

variable {m : Machine} {callers : Array Frame} {frame : Frame} {i : Nat} {v : Value}

theorem excused (h : m.Orderly) {fault : Fault} (hfault : fault.Ordinary) : Excused fault m :=
  ⟨hfault, h.heap, h.globals⟩

theorem push (h : m.Orderly) (hv : v.Obeys orderly) :
    Orderly { m with stack := m.stack.push v } := by
  refine ⟨fun w hw => ?_, h.locals, h.heap, h.globals⟩
  rcases Array.mem_push.1 hw with hw | rfl
  · exact h.stack w hw
  · exact hv

theorem withHeap (h : m.Orderly) {heap : Heap} (hheap : heap.Obeys orderly)
    (world : World := m.world) : Orderly { m with heap, world } :=
  ⟨h.stack, h.locals, hheap, h.globals⟩

/-- The values that an instruction takes off the stack. -/
theorem drop (h : m.Orderly) {st args : Array Value} (hstack : m.stack = st ++ args) :
    Orderly { m with stack := st } ∧ ∀ v ∈ args, v.Obeys orderly := by
  refine ⟨⟨fun v hv => ?_, h.locals, h.heap, h.globals⟩, fun v hv => ?_⟩
  · exact h.stack v (hstack ▸ Array.mem_append_left args hv)
  · exact h.stack v (hstack ▸ Array.mem_append_right st hv)

theorem setLocal (h : m.Orderly) (hframes : m.frames = callers.push frame) (hv : v.Obeys orderly) :
    Orderly { m with frames := callers.push (frame.setLocal i v) } := by
  have hlocals := h.locals
  rw [hframes] at hlocals
  refine ⟨h.stack, fun f hf w hw => ?_, h.heap, h.globals⟩
  rcases Array.mem_push.1 hf with hf | rfl
  · exact hlocals f (Array.mem_push_of_mem frame hf) w hw
  · rcases Array.mem_or_eq_of_mem_setIfInBounds hw with hw | rfl
    · exact hlocals frame Array.mem_push_self w hw
    · exact hv

end Machine.Orderly

/-! ## One instruction -/

namespace Enacts

variable {L : Ledger} {m : Machine} {frame : Frame} {callers : Array Frame} {older : Array Nat}
  {a offset : Nat} {ins : Instruction} {operands : List Nat} {s s' : Shape}
  {vals gathered : Array Value} {su : Surroundings}

theorem orderly_locals (h : Enacts L m frame callers older a offset ins s s' vals gathered)
    (ho : m.Orderly) : ∀ v ∈ frame.locals, v.Obeys orderly :=
  ho.locals frame (h.frames ▸ Array.mem_push_self)

theorem orderly_quiet (h : Enacts L m frame callers older a offset ins s s' vals gathered)
    (ho : m.Orderly) (hquiet : ins.op.isQuiet = true) :
    Action.Ends (Action.execute su offset ins) m (fun _ m' => m'.Orderly) Excused := by
  have hcell : ins.op ≠ .makeCell := by
    rintro hop
    rw [hop] at hquiet
    cases hquiet
  have hclosure : ins.op ≠ .loadClosure := by
    rintro hop
    rw [hop] at hquiet
    cases hquiet
  obtain ⟨st, args, htakes⟩ := h.takes hcell hclosure
  obtain ⟨hdrop, hargs⟩ := ho.drop htakes.stack
  have hserves : m.Serves orderly frame offset ins :=
    { h.serves with
      locals := fun v hv => .inl (h.orderly_locals ho v hv)
      heap := ho.heap
      globals := ho.globals }
  have hconstant : ∀ v, m.function.constants[ins.operand 0]? = some v → v.Obeys orderly := by
    intro v hv
    rw [h.function] at hv
    have := h.activation.built.constant v (Array.mem_of_getElem? hv)
    cases v <;> first | exact rfl | cases this
  have hends := execute_quiet su hserves hquiet htakes.stack htakes.taken hargs
    fun _ => hconstant
  refine hends.mono (fun _ m' hfollows => ?_) fun fault m' hbalks => ?_
  · obtain ⟨hundisturbed, ⟨pushed, hstack, -, hpushed⟩, -⟩ := hfollows
    refine ⟨fun v hv => ?_, hundisturbed.frames ▸ ho.locals, hundisturbed.heap.obeys,
      hundisturbed.globals⟩
    rw [hstack] at hv
    rcases Array.mem_append.1 hv with hv | hv
    · exact hdrop.stack v hv
    · exact hpushed v hv
  · exact ⟨hbalks.1, hbalks.2.heap.obeys, hbalks.2.globals⟩

theorem orderly_storeFast
    (h : Enacts L m frame callers older a offset ⟨.storeFast, operands⟩ s s' vals gathered)
    (ho : m.Orderly) : Action.Ends (Action.execute su offset ⟨.storeFast, operands⟩) m
      (fun _ m' => m'.Orderly) Excused := by
  obtain ⟨st, args, htakes⟩ := h.takes nofun nofun
  obtain ⟨v, hv, hstack⟩ : ∃ v ∈ args, m.stack = st.push v :=
    htakes.stack ▸ append_one htakes.taken
  obtain ⟨w, hw⟩ := h.slot (lt_of_check h.stands.admits.operands)
  obtain ⟨hdrop, hargs⟩ := ho.drop htakes.stack
  refine .storeFast h.frames hstack hw (fun c _ => ?_) fun _ => ?_
  · exact hdrop.withHeap (ho.heap.setCell c (hargs v hv))
  · exact hdrop.setLocal h.frames (hargs v hv)

theorem orderly_storeFree
    (h : Enacts L m frame callers older a offset ⟨.storeFree, operands⟩ s s' vals gathered)
    (ho : m.Orderly) : Action.Ends (Action.execute su offset ⟨.storeFree, operands⟩) m
      (fun _ m' => m'.Orderly) Excused := by
  obtain ⟨st, args, htakes⟩ := h.takes nofun nofun
  obtain ⟨v, hv, hstack⟩ : ∃ v ∈ args, m.stack = st.push v :=
    htakes.stack ▸ append_one htakes.taken
  obtain ⟨c, x, hc, -⟩ := h.reaches nofun (lt_of_check h.stands.admits.operands)
  obtain ⟨hdrop, hargs⟩ := ho.drop htakes.stack
  exact .storeFree h.frames hstack hc (hdrop.withHeap (ho.heap.setCell c (hargs v hv)))

theorem orderly_makeCell
    (h : Enacts L m frame callers older a offset ⟨.makeCell, operands⟩ s s' vals gathered)
    (ho : m.Orderly) : Action.Ends (Action.execute su offset ⟨.makeCell, operands⟩) m
      (fun _ m' => m'.Orderly) Excused := by
  have hoperands := h.stands.admits.operands
  unfold checkOperands at hoperands
  dsimp only at hoperands
  split at hoperands
  · rename_i hsource
    obtain ⟨w, hw⟩ := h.slot (lt_of_check hoperands)
    refine .makeCell_slot h.frames hsource hw (fun c _ => ho.push rfl) fun _ => ?_
    have hcell := ho.heap.newCell (h.orderly_locals ho w (Array.mem_of_getElem? hw))
    have hnew : (Value.cell ⟨m.heap.cells.size⟩).Obeys orderly := rfl
    exact ((ho.withHeap hcell).setLocal h.frames hnew).push hnew
  · rename_i hsource
    obtain ⟨c, x, hc, -⟩ := h.reaches nofun (lt_of_check hoperands)
    exact .makeCell_free h.frames hsource hc (ho.push rfl)
  · cases hoperands

/-- What has been gathered for a closure are cells. -/
theorem gathered_cells (h : Enacts L m frame callers older a offset ins s s' vals gathered) :
    ∃ cells : Array CellRef, gathered = cells.map .cell := by
  have hlist : ∀ {captures : List Capture} {values : List Value},
      List.Forall₂ frame.Gives captures values →
        ∃ cells : List CellRef, values = cells.map .cell := by
    intro captures values hgives
    induction hgives with
    | nil => exact ⟨[], rfl⟩
    | @cons capture v captures values hv _ ih =>
      obtain ⟨cells, rfl⟩ := ih
      cases capture with
      | slot i | free i =>
        obtain ⟨c, rfl, -⟩ := hv
        exact ⟨c :: cells, rfl⟩
  obtain ⟨cells, hcells⟩ := hlist h.gives
  exact ⟨cells.toArray, Array.toList_inj.1 (by rw [hcells, Array.toList_map])⟩

theorem orderly_loadClosure
    (h : Enacts L m frame callers older a offset ⟨.loadClosure, operands⟩ s s' vals gathered)
    (ho : m.Orderly) : Action.Ends (Action.execute su offset ⟨.loadClosure, operands⟩) m
      (fun _ m' => m'.Orderly) Excused := by
  obtain ⟨g, hg, -, -⟩ := h.stands.admits.moves
  have hcount : gathered.size = Instruction.operand ⟨.loadClosure, operands⟩ 1 := by
    rw [← length_cells_of_loadClosure h.stands.admits rfl, h.gives.length_eq, Array.length_toList]
  obtain ⟨cells, hcells⟩ := h.gathered_cells
  obtain ⟨hdrop, -⟩ := ho.drop h.stack
  refine .loadClosure (h.function ▸ hg) h.stack hcount (fun cells' _ => ?_)
    fun _ _ hnone => absurd hcells (hnone cells)
  exact (hdrop.withHeap ho.heap.newId.obeys).push rfl

theorem orderly_enter (ho : m.Orderly) {f : Routine Value} {cells : Array CellRef}
    {given : Array Value} (hgiven : ∀ v ∈ given, v.Obeys orderly) :
    Action.Ends (Action.enter su f cells given) m (fun _ m' => m'.Orderly) Excused := by
  refine .enter (fun callee pool hbegins => ?_) fun fault hfault => ho.excused hfault
  refine ⟨ho.stack, fun frame hframe v hv => ?_, ho.heap, ho.globals⟩
  rcases Array.mem_push.1 hframe with hframe | rfl
  · exact ho.locals frame hframe v hv
  · rw [hbegins.locals] at hv
    rcases Array.mem_append.1 hv with hv | hv
    · exact hgiven v hv
    · rw [Array.eq_of_mem_replicate hv]
      exact Value.obeys_of_plain rfl rfl

theorem orderly_call (hhost : ObedientHost orderly su.host)
    (h : Enacts L m frame callers older a offset ⟨.call, operands⟩ s s' vals gathered)
    (ho : m.Orderly) : Action.Ends (Action.execute su offset ⟨.call, operands⟩) m
      (fun _ m' => m'.Orderly) Excused := by
  obtain ⟨st, args, htakes⟩ := h.takes nofun nofun
  obtain ⟨hdrop, hargs⟩ := ho.drop htakes.stack
  have hgiven : ∀ v ∈ args.extract 1 args.size, v.Obeys orderly := by
    intro v hv
    exact hargs v (mem_of_mem_extract hv)
  refine .call htakes.stack htakes.taken (fun f _ => orderly_enter hdrop hgiven)
    (fun id f cells _ => orderly_enter hdrop hgiven) (fun id b _ => ?_)
    fun fault hfault => hdrop.excused hfault
  obtain ⟨hvalue, hheap⟩ := hhost.call b hgiven (s := ⟨m.heap, m.world⟩) ho.heap
  refine .callBuiltin (fun kind message heap world hcall => ?_) fun v heap world hcall => ?_
  · dsimp only at hcall
    rw [hcall] at hvalue hheap
    exact ⟨Fault.ordinary_raised hvalue, hheap, ho.globals⟩
  · dsimp only at hcall
    rw [hcall] at hvalue hheap
    exact (hdrop.withHeap hheap world).push hvalue

theorem orderly_returnValue
    (h : Enacts L m frame callers older a offset ⟨.returnValue, operands⟩ s s' vals gathered)
    (ho : m.Orderly) : Action.Ends (Action.execute su offset ⟨.returnValue, operands⟩) m
      (fun _ m' => m'.Orderly) Excused := by
  obtain ⟨st, args, htakes⟩ := h.takes nofun nofun
  obtain ⟨hdrop, hargs⟩ := ho.drop htakes.stack
  obtain ⟨callers', caller, hcallers⟩ := h.caller
  refine .returnValue (by rw [h.frames, hcallers]) htakes.stack htakes.taken
    (returnFlag_le_one h.stands.admits.operands) fun v hv => ?_
  refine ⟨fun w hw => ?_, fun f hf => ?_, ho.heap, ho.globals⟩
  · rcases Array.mem_push.1 hw with hw | rfl
    · rw [Array.shrink_eq_take] at hw
      exact hdrop.stack w (mem_of_mem_extract hw)
    · rcases hv with rfl | hv
      · exact Value.obeys_of_plain rfl rfl
      · exact hargs w hv
  · refine ho.locals f ?_
    rw [h.frames, hcallers]
    exact Array.mem_push_of_mem frame hf

theorem orderly_execute (hhost : ObedientHost orderly su.host)
    (h : Enacts L m frame callers older a offset ins s s' vals gathered) (ho : m.Orderly)
    (hhalt : ins.op ≠ .halt) :
    Action.Ends (Action.execute su offset ins) m (fun _ m' => m'.Orderly) Excused := by
  by_cases hquiet : ins.op.isQuiet = true
  · exact h.orderly_quiet ho hquiet
  · obtain ⟨op, operands⟩ := ins
    cases op with
    | storeFast => exact h.orderly_storeFast ho
    | storeFree => exact h.orderly_storeFree ho
    | makeCell => exact h.orderly_makeCell ho
    | loadClosure => exact h.orderly_loadClosure ho
    | call => exact h.orderly_call hhost ho
    | returnValue => exact h.orderly_returnValue ho
    | halt => exact absurd rfl hhalt
    | _ => exact absurd rfl hquiet

end Enacts

/-- A step of compiled code keeps the machine orderly and fails only for reasons that lie in the
values or the limits. -/
theorem Tracks.orderly_step {L : Ledger} {m : Machine} {su : Surroundings}
    (hhost : ObedientHost orderly su.host) (h : Tracks L m) (ho : m.Orderly) :
    Action.Ends (Action.step su) m (fun _ m' => m'.Orderly) Excused := by
  obtain ⟨frame, callers, older, a, ins, s, s', vals, gathered, hdecoded, henacts⟩ := h.enacts
  have hfetched : Machine.Orderly { m with steps := m.steps + 1, ip := m.ip + ins.size } :=
    ⟨ho.stack, ho.locals, ho.heap, ho.globals⟩
  refine .bind (.checkLimits (.bind (.fetch hdecoded ?_))
    fun fault hfault => ⟨hfault, ho.heap, ho.globals⟩)
  dsimp only
  by_cases hhalt : ins.op = .halt
  · rw [if_pos hhalt]
    exact .pure hfetched
  · rw [if_neg hhalt]
    exact .bind (.mono (henacts.orderly_execute hhost hfetched hhalt) (fun _ m' h => .pure h)
      fun _ _ h => h)

end Ember
