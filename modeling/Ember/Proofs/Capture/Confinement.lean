import Ember.Proofs.Capture.Orderly

/-! Where cells may be. Compiled code has them in the slots of its frames and in its closures; on
the stack they lie only while a closure is constructed, on top, one for each `MAKE_CELL` since the
construction began. That these instructions stand right before the next one is kept by every step;
that the construction ends as it should is read off the plan of the code. -/
namespace Ember
set_option autoImplicit false

/-! ## Values without cells -/

/-- No cells, and no results that hold one. -/
def cellless : Policy where
  allows v := ∀ c, v ≠ .cell c
  plain v hplain _ := by
    rintro c rfl
    cases hplain

def Value.isCell : Value → Bool
  | .cell _ => true
  | _ => false

theorem Bound.ne_cell {L : Ledger} {v : Value} (h : Bound L v) (c : CellRef) : v ≠ .cell c := by
  rintro rfl
  cases h with
  | plain h => cases h

section
variable {L : Ledger} {v : Value} {values : Array Value}

theorem Value.Obeys.cellless (h : v.Obeys (binding L)) : v.Obeys cellless := Bound.ne_cell h

theorem Heap.Obeys.cellless {heap : Heap} (h : heap.Obeys (binding L)) : heap.Obeys cellless :=
  h.imp fun _ hv => Bound.ne_cell hv

theorem Globals.Obeys.cellless {globals : Globals} (h : globals.Obeys (binding L)) :
    globals.Obeys cellless := h.imp fun _ hv => Bound.ne_cell hv

theorem countP_isCell_eq_zero (h : ∀ v ∈ values, v.Obeys Ember.cellless) :
    values.countP Value.isCell = 0 := by
  refine Array.countP_eq_zero.2 fun v hv hcell => ?_
  cases v with
  | cell c => exact h _ hv c rfl
  | _ => cases hcell

theorem countP_isCell_map (cells : Array CellRef) :
    (cells.map Value.cell).countP Value.isCell = cells.size := by
  rw [Array.countP_map]
  exact Array.countP_eq_size.2 fun _ _ => rfl

end

/-! ## Constructions -/

/-- The offset lies in the construction of a closure: so many cells have been made by the
instructions before it, and those that follow make the others and then the closure, which takes all
of them. -/
def Constructing (f : Routine Value) (pos count : Nat) : Prop :=
  ∃ start made rest last g, Decodes f.code start (made ++ (rest ++ [last])) ∧
    start + rowSize made = pos ∧ made.length = count ∧
    (∀ ins ∈ made ++ rest, ins.op = .makeCell) ∧ last.op = .loadClosure ∧
    f.constants[last.operand 0]? = some (.function g) ∧
    last.operand 1 = made.length + rest.length ∧ g.freeVariables.size = made.length + rest.length

/-- The instructions before the next one have made the cells that are on the stack, each of them
one. -/
def Machine.Gathers (m : Machine) : Prop :=
  ∃ start row, Decodes m.function.code start row ∧ start + rowSize row = m.ip ∧
    (∀ ins ∈ row, ins.op = .makeCell) ∧ row.length = m.stack.countP Value.isCell

theorem Machine.gathers_of_cellless {m : Machine} (h : ∀ v ∈ m.stack, v.Obeys cellless) :
    m.Gathers := ⟨m.ip, [], trivial, rfl, nofun, (countP_isCell_eq_zero h).symm⟩

theorem Decodes.append {code : Array UInt8} {pos : Nat} {front back : List Instruction}
    (hfront : Decodes code pos front) (hback : Decodes code (pos + rowSize front) back) :
    Decodes code pos (front ++ back) := by
  induction front generalizing pos with
  | nil => exact hback
  | cons ins front ih =>
    refine ⟨hfront.1, ih hfront.2 ?_⟩
    rwa [rowSize_cons, ← Nat.add_assoc] at hback

/-- While cells are gathered, more of them are made until a closure takes all. -/
theorem Stands.constructs {f : Routine Value} {pos : Nat} {ins : Instruction} {s s' : Shape}
    (h : Stands f pos ins s s') (hcells : s.cells ≠ []) :
    ∃ rest last g, Decodes f.code pos (rest ++ [last]) ∧ (∀ ins ∈ rest, ins.op = .makeCell) ∧
      last.op = .loadClosure ∧ f.constants[last.operand 0]? = some (.function g) ∧
      last.operand 1 = s.cells.length + rest.length ∧
      g.freeVariables.size = s.cells.length + rest.length := by
  -- each instruction leaves less of the code
  induction hleft : f.code.size - pos using Nat.strong_induction_on generalizing pos ins s s' with
  | h left ih =>
    have hmoves := h.admits.moves
    unfold Moves at hmoves
    split at hmoves
    · rename_i hop
      have hfits := Instruction.size_le_of_decode h.decoded
      have hsize := ins.size_pos
      have hfalls : ins.fallsThrough = true := by
        unfold Instruction.fallsThrough
        rw [hop]
      obtain ⟨next, s'', hnext⟩ := (h.falls hfalls).visit
      obtain ⟨rest, last, g, hdecodes, hmake, hclosure, hg, hcount, hfree⟩ :=
        ih (f.code.size - (pos + ins.size)) (by omega) hnext (by rw [hmoves]; simp) rfl
      have hlength : s'.cells.length = s.cells.length + 1 := by
        rw [hmoves, List.length_append, List.length_singleton]
      refine ⟨ins :: rest, last, g, ⟨h.decoded, hdecodes⟩, ?_, hclosure, hg, ?_, ?_⟩
      · exact List.forall_mem_cons.2 ⟨hop, hmake⟩
      · rw [List.length_cons]
        omega
      · rw [List.length_cons]
        omega
    · rename_i hop
      obtain ⟨g, hg, hshape, -⟩ := hmoves
      refine ⟨[], ins, g, ⟨h.decoded, trivial⟩, nofun, hop, hg, ?_, ?_⟩
      · rw [← length_cells_of_loadClosure h.admits hop]
        rfl
      · rw [hshape, List.length_map, Array.length_toList]
        rfl
    · exact absurd hmoves.2.1 hcells
    · exact absurd hmoves.1 hcells

/-! ## One instruction -/

namespace Enacts

variable {L : Ledger} {m : Machine} {frame : Frame} {callers : Array Frame} {older : Array Nat}
  {a offset : Nat} {ins : Instruction} {operands : List Nat} {s s' : Shape}
  {vals gathered st args : Array Value} {su : Surroundings}

/-- Outside of a construction there are no cells on the stack. -/
theorem cellless_stack (h : Enacts L m frame callers older a offset ins s s' vals gathered)
    (hcell : ins.op ≠ .makeCell) (hclosure : ins.op ≠ .loadClosure) :
    ∀ v ∈ m.stack, v.Obeys cellless := by
  obtain ⟨st, args, htakes⟩ := h.takes hcell hclosure
  intro v hv
  rw [htakes.stack] at hv
  rcases Array.mem_append.1 hv with hv | hv
  · exact (htakes.below v hv).cellless
  · exact (htakes.above v hv).cellless

theorem cellless_quiet (h : Enacts L m frame callers older a offset ins s s' vals gathered)
    (hquiet : ins.op.isQuiet = true) : Action.Ends (Action.execute su offset ins) m
      (fun _ m' => ∀ v ∈ m'.stack, v.Obeys cellless) fun _ _ => True := by
  have hcell : ins.op ≠ .makeCell := by
    rintro hop
    rw [hop] at hquiet
    cases hquiet
  have hclosure : ins.op ≠ .loadClosure := by
    rintro hop
    rw [hop] at hquiet
    cases hquiet
  obtain ⟨st, args, htakes⟩ := h.takes hcell hclosure
  have hends := execute_quiet su h.serves hquiet htakes.stack htakes.taken htakes.above
    fun hop v hv => h.constant_obeys hop hv
  refine hends.mono (fun _ m' hfollows v hv => ?_) fun _ _ _ => trivial
  obtain ⟨-, ⟨pushed, hstack, -, hpushed⟩, -⟩ := hfollows
  rw [hstack] at hv
  rcases Array.mem_append.1 hv with hv | hv
  · exact (htakes.below v hv).cellless
  · exact (hpushed v hv).cellless

theorem cellless_storeFast
    (h : Enacts L m frame callers older a offset ⟨.storeFast, operands⟩ s s' vals gathered) :
    Action.Ends (Action.execute su offset ⟨.storeFast, operands⟩) m
      (fun _ m' => ∀ v ∈ m'.stack, v.Obeys cellless) fun _ _ => True := by
  obtain ⟨st, args, htakes⟩ := h.takes nofun nofun
  obtain ⟨v, -, hstack⟩ : ∃ v ∈ args, m.stack = st.push v :=
    htakes.stack ▸ append_one htakes.taken
  obtain ⟨w, hw⟩ := h.slot (lt_of_check h.stands.admits.operands)
  exact .storeFast h.frames hstack hw (fun _ _ v hv => (htakes.below v hv).cellless)
    fun _ v hv => (htakes.below v hv).cellless

theorem cellless_storeFree
    (h : Enacts L m frame callers older a offset ⟨.storeFree, operands⟩ s s' vals gathered) :
    Action.Ends (Action.execute su offset ⟨.storeFree, operands⟩) m
      (fun _ m' => ∀ v ∈ m'.stack, v.Obeys cellless) fun _ _ => True := by
  obtain ⟨st, args, htakes⟩ := h.takes nofun nofun
  obtain ⟨v, -, hstack⟩ : ∃ v ∈ args, m.stack = st.push v :=
    htakes.stack ▸ append_one htakes.taken
  obtain ⟨c, x, hc, -⟩ := h.reaches nofun (lt_of_check h.stands.admits.operands)
  exact .storeFree h.frames hstack hc fun v hv => (htakes.below v hv).cellless

/-- A closure takes all cells that have been gathered. -/
theorem cellless_loadClosure
    (h : Enacts L m frame callers older a offset ⟨.loadClosure, operands⟩ s s' vals gathered) :
    Action.Ends (Action.execute su offset ⟨.loadClosure, operands⟩) m
      (fun _ m' => ∀ v ∈ m'.stack, v.Obeys cellless) fun _ _ => True := by
  obtain ⟨g, hg, -, -⟩ := h.stands.admits.moves
  have hcount : gathered.size = Instruction.operand ⟨.loadClosure, operands⟩ 1 := by
    rw [← length_cells_of_loadClosure h.stands.admits rfl, h.gives.length_eq, Array.length_toList]
  refine .loadClosure (h.function ▸ hg) h.stack hcount (fun cells _ v hv => ?_) fun _ _ _ => trivial
  rcases Array.mem_push.1 hv with hv | rfl
  · exact (h.obey v hv).cellless
  · exact nofun

theorem cellless_call (hhost : DiscreetHost su.host)
    (h : Enacts L m frame callers older a offset ⟨.call, operands⟩ s s' vals gathered) :
    Action.Ends (Action.execute su offset ⟨.call, operands⟩) m
      (fun _ m' => ∀ v ∈ m'.stack, v.Obeys cellless) fun _ _ => True := by
  obtain ⟨st, args, htakes⟩ := h.takes nofun nofun
  have henter : ∀ (f : Routine Value) (cells : Array CellRef),
      Action.Ends (Action.enter su f cells (args.extract 1 args.size)) { m with stack := st }
        (fun _ m' => ∀ v ∈ m'.stack, v.Obeys cellless) fun _ _ => True :=
    fun f cells => .enter (fun _ _ _ v hv => (htakes.below v hv).cellless) fun _ _ => trivial
  have hgiven : ∀ v ∈ args.extract 1 args.size, v.Obeys (binding L) := by
    intro v hv
    exact htakes.above v (mem_of_mem_extract hv)
  refine .call htakes.stack htakes.taken (fun f _ => henter f #[])
    (fun _ f cells _ => henter f cells) (fun _ b _ => ?_) fun _ _ => trivial
  obtain ⟨hvalue, -⟩ :=
    hhost.call b (lenient_binding L) hgiven (s := ⟨m.heap, m.world⟩) h.store.heap
  refine .callBuiltin (fun _ _ _ _ _ => trivial) fun v heap world hcall w hw => ?_
  dsimp only at hcall
  rw [hcall] at hvalue
  rcases Array.mem_push.1 hw with hw | rfl
  · exact (htakes.below w hw).cellless
  · exact hvalue.cellless

theorem cellless_returnValue
    (h : Enacts L m frame callers older a offset ⟨.returnValue, operands⟩ s s' vals gathered) :
    Action.Ends (Action.execute su offset ⟨.returnValue, operands⟩) m
      (fun _ m' => ∀ v ∈ m'.stack, v.Obeys cellless) fun _ _ => True := by
  obtain ⟨st, args, htakes⟩ := h.takes nofun nofun
  obtain ⟨callers', caller, hcallers⟩ := h.caller
  refine .returnValue (by rw [h.frames, hcallers]) htakes.stack htakes.taken
    (returnFlag_le_one h.stands.admits.operands) fun v hv w hw => ?_
  rcases Array.mem_push.1 hw with hw | rfl
  · rw [Array.shrink_eq_take] at hw
    exact (htakes.below w (mem_of_mem_extract hw)).cellless
  · rcases hv with rfl | hv
    · exact Value.obeys_of_plain rfl rfl
    · exact (htakes.above w hv).cellless

/-- Only `MAKE_CELL` leaves cells on the stack. -/
theorem cellless_execute (hhost : DiscreetHost su.host)
    (h : Enacts L m frame callers older a offset ins s s' vals gathered)
    (hcell : ins.op ≠ .makeCell) (hhalt : ins.op ≠ .halt) :
    Action.Ends (Action.execute su offset ins) m
      (fun _ m' => ∀ v ∈ m'.stack, v.Obeys cellless) fun _ _ => True := by
  by_cases hquiet : ins.op.isQuiet = true
  · exact h.cellless_quiet hquiet
  · obtain ⟨op, operands⟩ := ins
    cases op with
    | storeFast => exact h.cellless_storeFast
    | storeFree => exact h.cellless_storeFree
    | makeCell => exact absurd rfl hcell
    | loadClosure => exact h.cellless_loadClosure
    | call => exact h.cellless_call hhost
    | returnValue => exact h.cellless_returnValue
    | halt => exact absurd rfl hhalt
    | _ => exact absurd rfl hquiet

/-- `MAKE_CELL` leaves one more. -/
theorem pushes_makeCell
    (h : Enacts L m frame callers older a offset ⟨.makeCell, operands⟩ s s' vals gathered) :
    Action.Ends (Action.execute su offset ⟨.makeCell, operands⟩) m
      (fun _ m' => m'.function = m.function ∧ m'.ip = m.ip ∧
        ∃ c, m'.stack = m.stack.push (.cell c)) fun _ _ => True := by
  have hoperands := h.stands.admits.operands
  unfold checkOperands at hoperands
  dsimp only at hoperands
  split at hoperands
  · rename_i hsource
    obtain ⟨w, hw⟩ := h.slot (lt_of_check hoperands)
    exact .makeCell_slot h.frames hsource hw (fun c _ => ⟨rfl, rfl, c, rfl⟩)
      fun _ => ⟨rfl, rfl, _, rfl⟩
  · rename_i hsource
    obtain ⟨c, x, hc, -⟩ := h.reaches nofun (lt_of_check hoperands)
    exact .makeCell_free h.frames hsource hc ⟨rfl, rfl, c, rfl⟩
  · cases hoperands

end Enacts

/-! ## One step -/

/-- A step goes on with a construction, or there are no cells on the stack behind it. -/
theorem Tracks.gathers_step {L : Ledger} {m : Machine} {su : Surroundings}
    (hhost : DiscreetHost su.host) (h : Tracks L m) (hgathers : m.Gathers) :
    Action.Ends (Action.step su) m
      (fun halted m' => (halted = true → ∀ v ∈ m'.stack, v.Obeys cellless) ∧ m'.Gathers)
      fun _ _ => True := by
  obtain ⟨frame, callers, older, a, ins, s, s', vals, gathered, hdecoded, henacts⟩ := h.enacts
  refine .bind (.checkLimits (.bind (.fetch hdecoded ?_)) fun _ _ => trivial)
  dsimp only
  by_cases hhalt : ins.op = .halt
  · rw [if_pos hhalt]
    have hstack := henacts.cellless_stack (by rw [hhalt]; nofun) (by rw [hhalt]; nofun)
    exact .pure ⟨fun _ => hstack, Machine.gathers_of_cellless hstack⟩
  rw [if_neg hhalt]
  by_cases hcell : ins.op = .makeCell
  · obtain ⟨op, operands⟩ := ins
    obtain rfl : op = .makeCell := hcell
    refine .bind (henacts.pushes_makeCell.mono (fun _ m' hpushes => .pure ⟨nofun, ?_⟩)
      fun _ _ _ => trivial)
    obtain ⟨hfunction, hip, c, hstack⟩ := hpushes
    obtain ⟨start, row, hdecodes, hhere, hmake, hcount⟩ := hgathers
    refine ⟨start, row ++ [⟨.makeCell, operands⟩], ?_, ?_, fun i hi => ?_, ?_⟩
    · rw [hfunction]
      exact hdecodes.append ⟨hhere ▸ hdecoded, trivial⟩
    · rw [rowSize_append, ← Nat.add_assoc, hhere, hip]
      rfl
    · rcases List.mem_append.1 hi with hi | hi
      · exact hmake i hi
      · rw [List.mem_singleton.1 hi]
    · rw [List.length_append, hcount, hstack, Array.countP_push]
      rfl
  · exact .bind ((henacts.cellless_execute hhost hcell hhalt).mono
      (fun _ m' hstack => .pure ⟨nofun, Machine.gathers_of_cellless hstack⟩) fun _ _ _ => trivial)

/-! ## Confinement -/

/-- Nowhere are there cells but in the slots of frames and, while a closure is constructed, on top
of the stack. So there are none among the values that calls and builtins are given, that are
returned, or with which a chunk ends: an instruction that makes neither a cell nor a closure finds
none on the stack. -/
structure Machine.Confined (m : Machine) : Prop where
  heap : m.heap.Obeys cellless
  globals : m.globals.Obeys cellless
  constants : ∀ v ∈ m.function.constants, v.Obeys cellless
  slots : ∀ frame ∈ m.frames, ∀ v ∈ frame.locals, v.Obeys cellless ∨ ∃ c, v = .cell c
  stack : ∃ (values : Array Value) (cells : Array CellRef), m.stack = values ++ cells.map .cell ∧
    (∀ v ∈ values, v.Obeys cellless) ∧ (cells.size ≠ 0 → Constructing m.function m.ip cells.size)
  elsewhere : ∀ ins, decode m.function.code m.ip = .ok ins → ins.op ≠ .makeCell →
    ins.op ≠ .loadClosure → ∀ v ∈ m.stack, v.Obeys cellless

theorem Tracks.confined {L : Ledger} {m : Machine} (h : Tracks L m) (hgathers : m.Gathers) :
    m.Confined := by
  obtain ⟨frame, callers, older, a, ins, s, s', vals, gathered, hdecoded, henacts⟩ := h.enacts
  obtain ⟨cells, hcells⟩ := henacts.gathered_cells
  have hvals : ∀ v ∈ vals, v.Obeys cellless := fun v hv => (henacts.obey v hv).cellless
  have hstack : m.stack = vals ++ cells.map .cell := hcells ▸ henacts.stack
  have hfunction : m.function = frame.function := henacts.function
  have hlength : s.cells.length = cells.size := by
    rw [henacts.gives.length_eq, hcells, Array.length_toList, Array.size_map]
  refine ⟨h.store.heap.cellless, h.store.globals.cellless, ?_, ?_,
    ⟨vals, cells, hstack, hvals, fun hne => ?_⟩, ?_⟩
  · intro v hv
    have hconstant := henacts.activation.built.constant v (hfunction ▸ hv)
    cases v with
    | int _ | float _ | str _ | function _ => exact nofun
    | _ => cases hconstant
  · intro f hf
    obtain ⟨k, hk⟩ := Array.mem_iff_getElem?.1 hf
    obtain ⟨b, hb⟩ : ∃ b, L.active[k]? = some b := by
      have := (Array.getElem?_eq_some_iff.1 hk).1
      exact ⟨_, Array.getElem?_eq_getElem (h.calls.size ▸ this)⟩
    exact fun v hv => ((h.calls.activation k b f hb hk).locals v hv).imp_left Value.Obeys.cellless
  · obtain ⟨start, row, hdecodes, hhere, hmake, hcount⟩ := hgathers
    rw [hstack, Array.countP_append, countP_isCell_eq_zero hvals, countP_isCell_map,
      Nat.zero_add] at hcount
    obtain ⟨rest, last, g, hrest, hmake', hclosure, hg, hoperand, hfree⟩ :=
      henacts.stands.constructs fun hnone => hne (by rw [← hlength, hnone]; rfl)
    rw [hlength, ← hcount] at hoperand hfree
    refine ⟨start, row, rest, last, g, hdecodes.append ?_, hhere, hcount, fun i hi => ?_, hclosure,
      hfunction ▸ hg, hoperand, hfree⟩
    · rw [hhere, hfunction]
      exact hrest
    · exact (List.mem_append.1 hi).elim (hmake i) (hmake' i)
  · intro ins' hdecoded' hcell hclosure
    cases hdecoded.symm.trans hdecoded'
    exact henacts.cellless_stack hcell hclosure

end Ember
