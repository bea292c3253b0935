import Ember.Proofs.Capture.Steps

/-! Closures, calls and returns, and with them one whole step of compiled code. A closure takes the
cells that have been gathered for it; a call gets a number of its own; a return leaves the variables
that closures have captured. -/
namespace Ember
set_option autoImplicit false

namespace Enacts

variable {L : Ledger} {m : Machine} {frame : Frame} {callers : Array Frame} {older : Array Nat}
  {a offset : Nat} {ins : Instruction} {operands : List Nat} {s s' : Shape}
  {vals gathered st args : Array Value} {su : Surroundings}

/-! ## Closures -/

/-- The cells that have been gathered are those of the variables that the function captures. -/
theorem captures (h : Enacts L m frame callers older a offset ins s s' vals gathered)
    {g : Routine Value} {cells : Array CellRef} (hg : Value.function g ∈ frame.function.constants)
    (hshape : s.cells = g.freeVariables.toList.map (·.capture))
    (hcells : gathered = cells.map .cell) : Captures L frame a g cells := by
  have hgives := h.gives
  rw [hshape, hcells, Array.toList_map, List.forall₂_map_left_iff,
    List.forall₂_map_right_iff] at hgives
  have hlength := hgives.length_eq
  refine ⟨hlength.symm, fun k x c hx hc => ?_⟩
  obtain ⟨hk, rfl⟩ := Array.getElem?_eq_some_iff.1 hx
  obtain ⟨hk', rfl⟩ := Array.getElem?_eq_some_iff.1 hc
  have hgive := hgives.get hk hk'
  have hholds := h.activation.built.feeds g hg _ (Array.getElem_mem hk)
  rw [List.get_eq_getElem, List.get_eq_getElem, Array.getElem_toList, Array.getElem_toList] at hgive
  cases hcapture : g.freeVariables[k].capture with
  | slot i =>
    rw [hcapture] at hgive hholds
    obtain ⟨c, heq, hslot⟩ := hgive
    cases heq
    exact ⟨hslot, hholds, h.activation.owned i _ hslot⟩
  | free j =>
    rw [hcapture] at hgive hholds
    obtain ⟨c, heq, hfree⟩ := hgive
    cases heq
    exact ⟨hfree, hholds.2 h.activation.built.free⟩

/-- So a closure of them is bound. -/
theorem closure_obeys (h : Enacts L m frame callers older a offset ins s s' vals gathered)
    {g : Routine Value} {cells : Array CellRef} (hg : Value.function g ∈ frame.function.constants)
    (hcaptures : Captures L frame a g cells) (id : Nat) :
    (Value.closure id g cells).Obeys (binding L) := by
  refine Bound.closure (h.activation.built.compiled g hg) hcaptures.1 fun k x c hx hc => ?_
  have hcapture := hcaptures.2 k x c hx hc
  cases hx : x.capture with
  | slot i =>
    rw [hx] at hcapture
    obtain ⟨-, hslot, howner⟩ := hcapture
    exact ⟨_, howner, _, h.activation.function, hslot⟩
  | free j =>
    rw [hx] at hcapture
    obtain ⟨hcell, hname⟩ := hcapture
    obtain ⟨v, hv, hname⟩ := Option.map_eq_some_iff.1 hname
    rw [← hname]
    exact h.activation.names j v c hv hcell

theorem loadClosure
    (h : Enacts L m frame callers older a offset ⟨.loadClosure, operands⟩ s s' vals gathered) :
    Action.Ends (Action.execute su offset ⟨.loadClosure, operands⟩) m
      (fun _ m' => Advances L frame a ⟨.loadClosure, operands⟩ m m')
      (fun _ m' => Store L m'.heap m'.globals) := by
  obtain ⟨g, hg, hshape, hs'⟩ := h.stands.admits.moves
  have hmem := Array.mem_of_getElem? hg
  have hcount : gathered.size = Instruction.operand ⟨.loadClosure, operands⟩ 1 := by
    rw [← length_cells_of_loadClosure h.stands.admits rfl, h.gives.length_eq, Array.length_toList]
  refine .loadClosure (h.function ▸ hg) h.stack hcount (fun cells hcells => ?_) fun _ _ _ => h.store
  have hcaptures := h.captures hmem hshape hcells
  have hclosure := h.closure_obeys hmem hcaptures m.heap.nextId
  have hlaid : Laid L frame s' (vals.push (.closure m.heap.nextId g cells)) := by
    rw [hs']
    refine ⟨_, #[], Array.append_empty.symm, ?_, fun v hv => ?_, .nil⟩
    · rw [Array.size_push, h.size]
      rfl
    · rcases Array.mem_push.1 hv with hv | rfl
      · exact h.obey v hv
      · exact hclosure
  exact .same rfl rfl
    (h.stays rfl rfl (.inl ⟨rfl, rfl⟩) (h.store.kept h.store.heap.newId h.store.globals) hlaid)
    ⟨fun _ _ => Iff.rfl, g, _, cells, vals, hg, rfl, hcaptures⟩

/-! ## Calls -/

/-- The frame of a call that has just begun has no cells of its own. -/
theorem activation_enter (h : Enacts L m frame callers older a offset ins s s' vals gathered)
    {callee : Frame} {given : Array Value} (hcompiled : Compiled callee.function)
    (hcells : callee.cells.size = callee.function.freeVariables.size)
    (hnames : ∀ (i : Nat) (v : FreeVariable) (c : CellRef),
      callee.function.freeVariables[i]? = some v → callee.cells[i]? = some c → L.Names c v.name)
    (hgiven : ∀ v ∈ given, v.Obeys (binding L))
    (hlocals : callee.locals =
      given ++ Array.replicate (callee.function.localCount - given.size) .nil) :
    Activation (L.enter callee.function) callee L.calls.size := by
  have hext := L.extends_enter callee.function
  have hobey : ∀ v ∈ callee.locals, v.Obeys (binding L) := by
    intro v hv
    rw [hlocals] at hv
    rcases Array.mem_append.1 hv with hv | hv
    · exact hgiven v hv
    · rw [Array.eq_of_mem_replicate hv]
      exact Value.obeys_of_plain rfl rfl
  refine ⟨?_, hcompiled.built, ?_, fun _ => hcells,
    fun i v c hv hc => (hnames i v c hv hc).mono hext, fun i c hc => ?_, fun i c hc => ?_,
    fun v hv => .inl ((hobey v hv).grow hext)⟩
  · show (L.calls.push callee.function)[L.calls.size]? = _
    simp
  · rw [hlocals, Array.size_append, Array.size_replicate]
    omega
  · exact absurd rfl ((hobey _ (Array.mem_of_getElem? hc)).ne_cell c)
  · have := h.store.begun _ (Array.mem_of_getElem? hc)
    exact absurd this (Nat.lt_irrefl _)

/-- A call of a function gets the next number. -/
theorem enter (h : Enacts L m frame callers older a offset ⟨.call, operands⟩ s s' vals gathered)
    (htakes : Takes L m frame ⟨.call, operands⟩ s s' st args) {f : Routine Value}
    {cells : Array CellRef} {given : Array Value} (hcompiled : Compiled f)
    (hcells : cells.size = f.freeVariables.size)
    (hnames : ∀ (i : Nat) (v : FreeVariable) (c : CellRef), f.freeVariables[i]? = some v →
      cells[i]? = some c → L.Names c v.name)
    (hgiven : ∀ v ∈ given, v.Obeys (binding L))
    (hruns : ∀ callee : Frame, callee.function = f → callee.cells = cells →
      callee.Runs (args.getD 0 .nil)) :
    Action.Ends (Action.enter su f cells given) { m with stack := st }
      (fun _ m' => Advances L frame a ⟨.call, operands⟩ m m')
      (fun _ m' => Store L m'.heap m'.globals) := by
  refine .enter (fun callee pool hbegins => ?_) fun _ _ => h.store
  obtain ⟨rfl, rfl, hlocals, hresume, hbase⟩ := hbegins
  dsimp only at hresume hbase
  have hext := L.extends_enter callee.function
  have hactivation := h.activation_enter hcompiled hcells hnames hgiven hlocals
  have hcalls : Calls (L.enter callee.function) ((callers.push frame).push callee) := by
    refine h.calls.enter hactivation hcompiled.kind (hbase ▸ htakes.base) ?_
    have hfalls := h.stands.falls rfl
    rw [htakes.shape, ← h.ip] at hfalls
    rw [hresume, hbase]
    exact hfalls
  have hlaid : Laid (L.enter callee.function) callee (.values 0) st :=
    ⟨st, #[], Array.append_empty.symm, hbase.symm, fun v hv => (htakes.below v hv).grow hext, .nil⟩
  have hsize : m.frames.size < (m.frames.push callee).size := by simp
  unfold Advances Ledger.after
  rw [if_pos hsize]
  refine ⟨⟨?_, h.store.grow hext rfl, callee, _, ?_, rfl, hcompiled.entry, hlaid⟩,
    fun x v hx => ?_, fun callee' hpush => ?_⟩
  · dsimp only
    rw [h.frames]
    exact hcalls
  · exact Array.back?_push
  · dsimp only
    rw [h.frames]
    exact contents_enter h.calls _ callee hx
  · cases Array.push_inj_right.1 hpush
    exact ⟨st, args, htakes.stack, htakes.taken, hruns callee rfl rfl⟩

/-- A builtin changes no variable. -/
theorem callBuiltin (hhost : DiscreetHost su.host)
    (h : Enacts L m frame callers older a offset ⟨.call, operands⟩ s s' vals gathered)
    (htakes : Takes L m frame ⟨.call, operands⟩ s s' st args) (b : Builtin) {given : Array Value}
    (hgiven : ∀ v ∈ given, v.Obeys (binding L)) :
    Action.Ends (Action.callBuiltin su b given) { m with stack := st }
      (fun _ m' => Advances L frame a ⟨.call, operands⟩ m m')
      (fun _ m' => Store L m'.heap m'.globals) := by
  obtain ⟨hvalue, hkept⟩ :=
    hhost.call b (lenient_binding L) hgiven (s := ⟨m.heap, m.world⟩) h.store.heap
  refine .callBuiltin (fun kind message heap world hcall => ?_) fun v heap world hcall => ?_
  · dsimp only at hcall
    rw [hcall] at hkept
    exact h.store.kept hkept h.store.globals
  · dsimp only at hcall
    rw [hcall] at hvalue hkept
    refine .same rfl (congrArg Array.size hkept.cells) ?_ ⟨fun x w _ => ?_, fun callee hpush => ?_⟩
    · exact h.stays rfl rfl (.inl ⟨rfl, rfl⟩) (h.store.kept hkept h.store.globals)
        (htakes.laid_push rfl rfl hvalue)
    · exact contents_congr (fun _ => Iff.rfl) (fun _ _ => by rw [hkept.cells]) fun _ => Iff.rfl
    · have := congrArg Array.size hpush
      rw [Array.size_push] at this
      exact absurd this (Nat.ne_of_lt (Nat.lt_succ_self _))

theorem call (hhost : DiscreetHost su.host)
    (h : Enacts L m frame callers older a offset ⟨.call, operands⟩ s s' vals gathered) :
    Action.Ends (Action.execute su offset ⟨.call, operands⟩) m
      (fun _ m' => Advances L frame a ⟨.call, operands⟩ m m')
      (fun _ m' => Store L m'.heap m'.globals) := by
  obtain ⟨st, args, htakes⟩ := h.takes nofun nofun
  have hgiven : ∀ v ∈ args.extract 1 args.size, v.Obeys (binding L) := by
    intro v hv
    exact htakes.above v (mem_of_mem_extract hv)
  have hcallee : (args.getD 0 .nil).Obeys (binding L) := by
    rw [Array.getD_eq_getD_getElem?]
    cases hv : args[0]? with
    | none => exact Value.obeys_of_plain rfl rfl
    | some v => exact htakes.above v (Array.mem_of_getElem? hv)
  refine .call htakes.stack htakes.taken (fun f hf => ?_) (fun id f cells hf => ?_)
    (fun id b _ => h.callBuiltin hhost htakes b hgiven) fun _ _ => h.store
  · rw [hf] at hcallee
    cases hcallee with
    | plain hplain => cases hplain
    | function hg hbare =>
      refine h.enter htakes hg hbare.symm nofun hgiven fun callee hfunction hcells => ?_
      rw [hf]
      exact ⟨hfunction, hcells⟩
  · rw [hf] at hcallee
    cases hcallee with
    | plain hplain => cases hplain
    | closure hg hsize hnames =>
      refine h.enter htakes hg hsize hnames hgiven fun callee hfunction hcells => ?_
      rw [hf]
      exact ⟨hfunction, hcells⟩

/-- The outermost call is one of the session and never returns, so somebody waits for the value. -/
theorem caller
    (h : Enacts L m frame callers older a offset ⟨.returnValue, operands⟩ s s' vals gathered) :
    ∃ (callers' : Array Frame) (caller : Frame), callers = callers'.push caller := by
  have hkind := kind_of_place h.stands.admits.place nofun
  refine Array.exists_push_of_size_pos (Nat.pos_of_ne_zero fun hzero => ?_)
  have := h.calls.outermost frame (by rw [Array.size_eq_zero_iff.1 hzero]; rfl)
  rw [this] at hkind
  cases hkind

theorem returnValue
    (h : Enacts L m frame callers older a offset ⟨.returnValue, operands⟩ s s' vals gathered) :
    Action.Ends (Action.execute su offset ⟨.returnValue, operands⟩) m
      (fun _ m' => Advances L frame a ⟨.returnValue, operands⟩ m m')
      (fun _ m' => Store L m'.heap m'.globals) := by
  obtain ⟨st, args, htakes⟩ := h.takes nofun nofun
  obtain ⟨callers', caller, hcallers⟩ := h.caller
  have hcaller : (callers.push frame)[callers'.size]? = some caller := by
    rw [hcallers]
    exact getElem?_push_of_some (by simp) frame
  have hframe : (callers.push frame)[callers'.size + 1]? = some frame := by
    rw [show callers'.size + 1 = callers.size by rw [hcallers, Array.size_push]]
    exact Array.getElem?_push_size
  obtain ⟨hbase, hsite⟩ := h.calls.waits _ caller frame hcaller hframe
  refine .returnValue (by rw [h.frames, hcallers]) htakes.stack htakes.taken
    (returnFlag_le_one h.stands.admits.operands) fun v hv => ?_
  have hext := L.extends_leave
  have hlaid : Laid L.leave caller (.values (frame.base + 1 - caller.base))
      ((st.shrink frame.base).push v) := by
    have hle := htakes.base
    refine ⟨_, #[], Array.append_empty.symm, ?_, fun w hw => ?_, .nil⟩
    · rw [Array.size_push, Array.shrink_eq_take, Array.size_extract, Shape.values_plain]
      omega
    · rcases Array.mem_push.1 hw with hw | rfl
      · rw [Array.shrink_eq_take] at hw
        exact (htakes.below w (mem_of_mem_extract hw)).grow hext
      · rcases hv with rfl | hv
        · exact Value.obeys_of_plain rfl rfl
        · exact (htakes.above w hv).grow hext
  unfold Advances Ledger.after
  rw [if_neg (by simp [h.frames, hcallers]), if_pos (by simp [h.frames, hcallers])]
  refine ⟨⟨?_, h.store.grow hext rfl, caller, _, Array.back?_push, rfl, hsite, hlaid⟩,
    fun x w hx => ?_⟩
  · exact hcallers ▸ h.calls.leave h.active
  · rw [h.frames]
    exact hcallers ▸ contents_leave h.calls h.active hx

/-! ## Any instruction -/

theorem execute (hhost : DiscreetHost su.host)
    (h : Enacts L m frame callers older a offset ins s s' vals gathered) (hhalt : ins.op ≠ .halt) :
    Action.Ends (Action.execute su offset ins) m (fun _ m' => Advances L frame a ins m m')
      (fun _ m' => Store L m'.heap m'.globals) := by
  obtain ⟨op, operands⟩ := ins
  by_cases hquiet : op.isQuiet = true ∧ op ≠ .loadFast ∧ op ≠ .loadFree
  · exact h.quiet hquiet.1 hquiet.2.1 hquiet.2.2
  · cases op with
    | loadFast => exact h.loadFast
    | loadFree => exact h.loadFree
    | storeFast => exact h.storeFast
    | storeFree => exact h.storeFree
    | makeCell => exact h.makeCell
    | loadClosure => exact h.loadClosure
    | call => exact h.call hhost
    | returnValue => exact h.returnValue
    | halt => exact absurd rfl hhalt
    | _ => exact absurd ⟨rfl, nofun, nofun⟩ hquiet

end Enacts

/-! ## One step -/

/-- The machine is about to execute an instruction of planned code. -/
theorem Tracks.enacts {L : Ledger} {m : Machine} (h : Tracks L m) :
    ∃ frame callers older a ins s s' vals gathered, decode m.function.code m.ip = .ok ins ∧
      Enacts L { m with steps := m.steps + 1, ip := m.ip + ins.size } frame callers older a m.ip ins
        s s' vals gathered := by
  obtain ⟨hcalls, hstore, frame, s, hback, hfunction, hsite, vals, gathered, hstack, hsize, hobey,
    hgives⟩ := h
  obtain ⟨callers, hframes⟩ := exists_callers hback
  obtain ⟨ins, s', hstands⟩ := hsite.visit
  rw [hframes] at hcalls
  obtain ⟨older, a, hactive⟩ : ∃ (older : Array Nat) (a : Nat), L.active = older.push a := by
    refine Array.exists_push_of_size_pos ?_
    rw [hcalls.size, Array.size_push]
    exact Nat.succ_pos _
  exact ⟨frame, callers, older, a, ins, s, s', vals, gathered, hfunction ▸ hstands.decoded,
    hframes, hactive, hfunction, rfl, hstands, hcalls, hstore, hstack, hsize, hobey, hgives⟩

/-- A step goes along with the ledger and is lawful; where it ends the run, what stays is
tracked. -/
theorem Tracks.step {L : Ledger} {m : Machine} {su : Surroundings} (hhost : DiscreetHost su.host)
    (h : Tracks L m) : ∃ frame a ins, m.frames.back? = some frame ∧ L.active.back? = some a ∧
      decode m.function.code m.ip = .ok ins ∧
      Action.Ends (Action.step su) m
        (fun halted m' => if halted = true then Store L m'.heap m'.globals
          else Advances L frame a ins m m')
        (fun _ m' => Store L m'.heap m'.globals) := by
  obtain ⟨frame, callers, older, a, ins, s, s', vals, gathered, hdecoded, henacts⟩ := h.enacts
  refine ⟨frame, a, ins, by rw [show m.frames = _ from henacts.frames, Array.back?_push],
    by rw [henacts.active, Array.back?_push], hdecoded, ?_⟩
  refine .bind (.checkLimits (.bind (.fetch hdecoded ?_)) fun _ _ => h.store)
  dsimp only
  by_cases hhalt : ins.op = .halt
  · rw [if_pos hhalt]
    exact .pure h.store
  · rw [if_neg hhalt]
    refine .bind (.mono (henacts.execute hhost hhalt) (fun _ m' hadvances => ?_) fun _ _ h => h)
    exact .pure hadvances

end Ember
