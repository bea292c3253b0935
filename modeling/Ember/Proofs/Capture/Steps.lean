import Ember.Proofs.Capture.Variables

/-! What the instructions of compiled code do to variables. Every instruction keeps the invariant of
the ledger, and acts on the contents of variables as `Lawful` says. -/
namespace Ember
set_option autoImplicit false

/-! ## The law -/

/-- The cells of a closure that the call `a` makes are those of the variables that its function
captures. -/
def Captures (L : Ledger) (frame : Frame) (a : Nat) (g : Routine Value) (cells : Array CellRef) :
    Prop :=
  cells.size = g.freeVariables.size ∧
    ∀ (k : Nat) (x : FreeVariable) (c : CellRef), g.freeVariables[k]? = some x →
      cells[k]? = some c → match x.capture with
        | .slot i => frame.locals[i]? = some (.cell c) ∧
            frame.function.scope.slots[i]? = some x.name ∧ L.owners[c.index]? = some ⟨a, i⟩
        | .free j => frame.cells[j]? = some c ∧
            (frame.function.freeVariables[j]?).map FreeVariable.name = some x.name

/-- The captured variable at a place among those of a frame. -/
def Reaches (L : Ledger) (frame : Frame) (i : Nat) (x : Variable) : Prop :=
  ∃ c v, frame.cells[i]? = some c ∧ L.owners[c.index]? = some x ∧
    frame.function.freeVariables[i]? = some v ∧ L.Declares x v.name

/-- The frame runs the function or the closure, with the cells that it carries. -/
def Frame.Runs (frame : Frame) : Value → Prop
  | .function g => frame.function = g ∧ frame.cells = #[]
  | .closure _ g cells => frame.function = g ∧ frame.cells = cells
  | _ => False

/-- What an instruction of the call `a` does to variables. -/
def Lawful (L : Ledger) (frame : Frame) (a : Nat) (ins : Instruction) (m : Machine) (L' : Ledger)
    (m' : Machine) : Prop :=
  let i := ins.operand 0
  match ins.op with
  | .loadFast => SameContents L m L' m' ∧
      ∃ v, L.Contents m.heap m.frames ⟨a, i⟩ v ∧ m'.stack = m.stack.push v
  | .storeFast => ∃ v, m.stack = m'.stack.push v ∧ SetsContents L m L' m' ⟨a, i⟩ v
  | .loadFree => SameContents L m L' m' ∧
      ∃ x v, Reaches L frame i x ∧ L.Contents m.heap m.frames x v ∧ m'.stack = m.stack.push v
  | .storeFree => ∃ x v, Reaches L frame i x ∧ m.stack = m'.stack.push v ∧
      SetsContents L m L' m' x v
  | .loadClosure => SameContents L m L' m' ∧
      ∃ g id cells st, frame.function.constants[i]? = some (.function g) ∧
        m'.stack = Array.push st (.closure id g cells) ∧ Captures L frame a g cells
  | .call => (∀ x v, x.call < L.calls.size →
      (L'.Contents m'.heap m'.frames x v ↔ L.Contents m.heap m.frames x v)) ∧
      ∀ callee, m'.frames = m.frames.push callee → ∃ st args, m.stack = st ++ args ∧
        args.size = i + 1 ∧ callee.Runs (args.getD 0 .nil)
  | .returnValue => ∀ x v, x.call ≠ a ∨ x ∈ L.owners →
      (L'.Contents m'.heap m'.frames x v ↔ L.Contents m.heap m.frames x v)
  | _ => SameContents L m L' m'

/-- Quiet instructions other than loads of variables leave all variables alone. -/
theorem lawful_of_quiet {L L' : Ledger} {frame : Frame} {a : Nat} {ins : Instruction}
    {m m' : Machine} (hquiet : ins.op.isQuiet = true) (hfast : ins.op ≠ .loadFast)
    (hfree : ins.op ≠ .loadFree) (h : SameContents L m L' m') :
    Lawful L frame a ins m L' m' := by
  unfold Lawful
  cases hop : ins.op with
  | loadFast => exact absurd hop hfast
  | loadFree => exact absurd hop hfree
  | storeFast | storeFree | makeCell | loadClosure | call | returnValue | halt =>
    rw [hop] at hquiet
    cases hquiet
  | _ => exact h

/-- The ledger goes along with a step, and the step was lawful. -/
def Advances (L : Ledger) (frame : Frame) (a : Nat) (ins : Instruction) (m m' : Machine) : Prop :=
  Tracks (L.after ins m m') m' ∧ Lawful L frame a ins m (L.after ins m m') m'

/-! ## Before an instruction -/

/-- The machine is about to execute an instruction of planned code. -/
structure Enacts (L : Ledger) (m : Machine) (frame : Frame) (callers : Array Frame)
    (older : Array Nat) (a offset : Nat) (ins : Instruction) (s s' : Shape)
    (vals gathered : Array Value) : Prop where
  frames : m.frames = callers.push frame
  active : L.active = older.push a
  function : m.function = frame.function
  ip : m.ip = offset + ins.size
  stands : Stands frame.function offset ins s s'
  calls : Calls L (callers.push frame)
  store : Store L m.heap m.globals
  stack : m.stack = vals ++ gathered
  size : vals.size = frame.base + s.plain
  obey : ∀ v ∈ vals, v.Obeys (binding L)
  gives : List.Forall₂ frame.Gives s.cells gathered.toList

namespace Enacts

variable {L L' : Ledger} {m m' : Machine} {frame frame' : Frame} {callers : Array Frame}
  {older : Array Nat} {a offset : Nat} {ins : Instruction} {operands : List Nat} {s s' : Shape}
  {vals gathered : Array Value} {su : Surroundings}

theorem activation (h : Enacts L m frame callers older a offset ins s s' vals gathered) :
    Activation L frame a := h.calls.last h.active

/-- Where the run goes on, the stack is foreseen to have the shape that the instruction leaves. -/
theorem site (h : Enacts L m frame callers older a offset ins s s' vals gathered)
    (hip : (ins.fallsThrough = true ∧ m'.ip = m.ip) ∨ ins.target? offset = some m'.ip) :
    Site frame.function m'.ip s' := by
  rcases hip with ⟨hfalls, hip⟩ | ht
  · rw [hip, h.ip]
    exact h.stands.falls hfalls
  · have hjump : ins.op.isJump = true := by
      unfold Instruction.target? at ht
      split at ht
      · assumption
      · cases ht
    obtain ⟨t, ht', hsite⟩ := h.stands.lands hjump
    rw [ht] at ht'
    rwa [Option.some.inj ht']

/-- The active call goes on. -/
theorem tracks (h : Enacts L m frame callers older a offset ins s s' vals gathered)
    (hext : L.Extends L') (hactive : L'.active = L.active)
    (hown : ∀ b, b ≠ a → ∀ c i : Nat, L'.owners[c]? = some ⟨b, i⟩ → L.owners[c]? = some ⟨b, i⟩)
    (hframe : Activation L' frame' a) (hfunction : frame'.function = frame.function)
    (hbase : frame'.base = frame.base) (hresume : frame'.resume = frame.resume)
    (hframes : m'.frames = callers.push frame') (hfunction' : m'.function = m.function)
    (hip : (ins.fallsThrough = true ∧ m'.ip = m.ip) ∨ ins.target? offset = some m'.ip)
    (hstore : Store L' m'.heap m'.globals) (hlaid : Laid L' frame' s' m'.stack) :
    Tracks L' m' := by
  refine ⟨?_, hstore, frame', s', ?_, ?_, ?_, hlaid⟩
  · rw [hframes]
    exact h.calls.update h.active hext hactive hown hframe hfunction hbase hresume
  · rw [hframes, Array.back?_push]
  · rw [hfunction', hfunction, h.function]
  · rw [hfunction]
    exact h.site hip

/-- The active call goes on and has not changed its slots. -/
theorem stays (h : Enacts L m frame callers older a offset ins s s' vals gathered)
    (hframes : m'.frames = m.frames) (hfunction : m'.function = m.function)
    (hip : (ins.fallsThrough = true ∧ m'.ip = m.ip) ∨ ins.target? offset = some m'.ip)
    (hstore : Store L m'.heap m'.globals) (hlaid : Laid L frame s' m'.stack) : Tracks L m' :=
  h.tracks (.refl L) rfl (fun _ _ _ _ hc => hc) h.activation rfl rfl rfl
    (hframes.trans h.frames) hfunction hip hstore hlaid

end Enacts

/-- Where no call begins or ends and no cell is made, the ledger stays as it is. -/
theorem Advances.same {L : Ledger} {frame : Frame} {a : Nat} {ins : Instruction} {m m' : Machine}
    (hframes : m'.frames.size = m.frames.size) (hcells : m'.heap.cells.size = m.heap.cells.size)
    (htracks : Tracks L m') (hlawful : Lawful L frame a ins m L m') :
    Advances L frame a ins m m' := by
  have hafter : L.after ins m m' = L := by
    unfold Ledger.after
    rw [if_neg (by omega), if_neg (by omega), if_neg (by omega)]
  rw [Advances, hafter]
  exact ⟨htracks, hlawful⟩

namespace Enacts

variable {L L' : Ledger} {m m' : Machine} {frame frame' : Frame} {callers : Array Frame}
  {older : Array Nat} {a offset : Nat} {ins : Instruction} {operands : List Nat} {s s' : Shape}
  {vals gathered st args : Array Value} {su : Surroundings}

/-! ## Instructions that gather no cells -/

theorem moves (h : Enacts L m frame callers older a offset ins s s' vals gathered)
    (hcell : ins.op ≠ .makeCell) (hclosure : ins.op ≠ .loadClosure) :
    s.cells = [] ∧ ins.pops ≤ s.plain ∧ s' = .values (ins.heightAfter s.plain) := by
  have hmoves := h.stands.admits.moves
  unfold Moves at hmoves
  split at hmoves
  · exact absurd (by assumption) hcell
  · exact absurd (by assumption) hclosure
  · rename_i hop
    obtain ⟨-, hcells, rfl⟩ := hmoves
    refine ⟨hcells, ?_, ?_⟩
    · simp [Instruction.pops, hop]
    · simp [Instruction.heightAfter, Instruction.pops, Instruction.pushes, hop]
  · exact hmoves

/-- The values that the instruction takes, and those below. -/
structure Takes (L : Ledger) (m : Machine) (frame : Frame) (ins : Instruction) (s s' : Shape)
    (st args : Array Value) : Prop where
  stack : m.stack = st ++ args
  taken : args.size = ins.pops
  below : ∀ v ∈ st, v.Obeys (binding L)
  above : ∀ v ∈ args, v.Obeys (binding L)
  base : frame.base ≤ st.size
  shape : s' = .values (st.size + ins.pushes - frame.base)

theorem takes (h : Enacts L m frame callers older a offset ins s s' vals gathered)
    (hcell : ins.op ≠ .makeCell) (hclosure : ins.op ≠ .loadClosure) :
    ∃ st args, Takes L m frame ins s s' st args := by
  obtain ⟨hcells, hpops, rfl⟩ := h.moves hcell hclosure
  have hgives := h.gives
  rw [hcells, List.forall₂_nil_left_iff, Array.toList_eq_nil_iff] at hgives
  have hstack := h.stack
  have hsize := h.size
  rw [hgives, Array.append_empty] at hstack
  refine ⟨vals.extract 0 (vals.size - ins.pops), vals.extract (vals.size - ins.pops) vals.size,
    ?_, ?_, fun v hv => h.obey v (mem_of_mem_extract hv),
    fun v hv => h.obey v (mem_of_mem_extract hv), ?_, ?_⟩
  · rw [hstack, Array.extract_append_extract]
    simp
  · rw [Array.size_extract]
    omega
  · rw [Array.size_extract]
    omega
  · rw [Array.size_extract, Instruction.heightAfter]
    congr 1
    omega

theorem Takes.laid (h : Takes L m frame ins s s' st args) (hbase : frame'.base = frame.base)
    (pushed : Array Value) (hsize : pushed.size = ins.pushes)
    (hobey : ∀ v ∈ pushed, v.Obeys (binding L)) : Laid L frame' s' (st ++ pushed) := by
  have hle := h.base
  rw [h.shape]
  refine ⟨st ++ pushed, #[], Array.append_empty.symm, ?_, fun v hv => ?_, .nil⟩
  · rw [Array.size_append, hsize, hbase, Shape.values_plain]
    omega
  · rcases Array.mem_append.1 hv with hv | hv
    · exact h.below v hv
    · exact hobey v hv

/-- What the stack is if nothing is pushed. -/
theorem Takes.laid_empty (h : Takes L m frame ins s s' st args) (hbase : frame'.base = frame.base)
    (hpushes : ins.pushes = 0) : Laid L frame' s' st := by
  have := h.laid hbase #[] hpushes.symm nofun
  rwa [Array.append_empty] at this

theorem Takes.laid_push (h : Takes L m frame ins s s' st args) (hbase : frame'.base = frame.base)
    (hpushes : ins.pushes = 1) {v : Value} (hv : v.Obeys (binding L)) :
    Laid L frame' s' (st.push v) := by
  refine h.laid hbase #[v] hpushes.symm fun w hw => ?_
  rw [List.mem_singleton.1 (Array.mem_toList_iff.2 hw)]
  exact hv

theorem serves (h : Enacts L m frame callers older a offset ins s s' vals gathered) :
    m.Serves (binding L) frame offset ins where
  decoded := h.function ▸ h.stands.decoded
  operands := h.function ▸ h.stands.admits.operands
  place := h.function ▸ h.stands.admits.place
  lands hjump := by
    obtain ⟨t, ht, -⟩ := h.stands.lands hjump
    exact ⟨t, ht⟩
  active := by rw [h.frames, Array.back?_push]
  slots := h.function ▸ h.activation.slots
  captured := h.function ▸ h.activation.captured
  locals := h.activation.locals
  heap := h.store.heap
  globals := h.store.globals

theorem constant_obeys (h : Enacts L m frame callers older a offset ins s s' vals gathered)
    (hop : ins.op = .loadConst) {v : Value}
    (hv : m.function.constants[ins.operand 0]? = some v) : v.Obeys (binding L) := by
  rw [h.function] at hv
  have hmem := Array.mem_of_getElem? hv
  have hconstant := h.activation.built.constant v hmem
  have hmoves := h.stands.admits.moves
  simp only [Moves, hop] at hmoves
  cases v with
  | function g => exact Bound.function (h.activation.built.compiled g hmem) (hmoves.1 g hv)
  | int _ | float _ | str _ => exact Value.obeys_of_plain rfl rfl
  | _ => cases hconstant

theorem quiet (h : Enacts L m frame callers older a offset ins s s' vals gathered)
    (hquiet : ins.op.isQuiet = true) (hfast : ins.op ≠ .loadFast) (hfree : ins.op ≠ .loadFree) :
    Action.Ends (Action.execute su offset ins) m (fun _ m' => Advances L frame a ins m m')
      (fun _ m' => Store L m'.heap m'.globals) := by
  have hcell : ins.op ≠ .makeCell := by
    rintro hop
    rw [hop] at hquiet
    cases hquiet
  have hclosure : ins.op ≠ .loadClosure := by
    rintro hop
    rw [hop] at hquiet
    cases hquiet
  obtain ⟨st, args, htakes⟩ := h.takes hcell hclosure
  have hends := execute_quiet su h.serves hquiet htakes.stack htakes.taken htakes.above
    fun hop v hv => h.constant_obeys hop hv
  refine hends.mono (fun _ m' hfollows => ?_) fun fault m' hbalks => ?_
  · obtain ⟨hundisturbed, ⟨pushed, hstack, hpushed, hobeys⟩, hip⟩ := hfollows
    have hsame : SameContents L m L m' := by
      intro x v
      rw [hundisturbed.frames]
      exact contents_congr (fun _ => Iff.rfl) (fun _ _ => by rw [hundisturbed.heap.cells])
        fun _ => Iff.rfl
    refine .same (by rw [hundisturbed.frames]) (by rw [hundisturbed.heap.cells]) ?_ ?_
    · refine h.stays hundisturbed.frames hundisturbed.function hip
        (h.store.kept hundisturbed.heap hundisturbed.globals) ?_
      rw [hstack]
      exact htakes.laid rfl pushed hpushed hobeys
    · exact lawful_of_quiet hquiet hfast hfree hsame
  · exact h.store.kept hbalks.2.heap hbalks.2.globals

/-! ## Variables -/

/-- The slot that an instruction refers to is there. -/
theorem slot (h : Enacts L m frame callers older a offset ins s s' vals gathered)
    (hi : ins.operand 0 < frame.function.localCount) :
    ∃ w, frame.locals[ins.operand 0]? = some w :=
  ⟨_, Array.getElem?_eq_getElem (Nat.lt_of_lt_of_le hi h.activation.slots)⟩

/-- So is the captured variable, of the name that the function has for it. -/
theorem reaches (h : Enacts L m frame callers older a offset ins s s' vals gathered)
    (hplace : checkPlace .topLevel ins.op ≠ .ok ())
    (hi : ins.operand 0 < frame.function.freeVariables.size) :
    ∃ c x, frame.cells[ins.operand 0]? = some c ∧ L.owners[c.index]? = some x ∧
      Reaches L frame (ins.operand 0) x := by
  have hkind := kind_of_place h.stands.admits.place hplace
  have hc := Array.getElem?_eq_getElem (h.activation.captured hkind ▸ hi)
  have hv := Array.getElem?_eq_getElem hi
  obtain ⟨x, howner, hdeclares⟩ := h.activation.names _ _ _ hv hc
  exact ⟨_, x, hc, howner, _, _, hc, howner, hv, hdeclares⟩

theorem loadFast
    (h : Enacts L m frame callers older a offset ⟨.loadFast, operands⟩ s s' vals gathered) :
    Action.Ends (Action.execute su offset ⟨.loadFast, operands⟩) m
      (fun _ m' => Advances L frame a ⟨.loadFast, operands⟩ m m')
      (fun _ m' => Store L m'.heap m'.globals) := by
  obtain ⟨st, args, htakes⟩ := h.takes nofun nofun
  obtain ⟨w, hw⟩ := h.slot (lt_of_check h.stands.admits.operands)
  have hst : m.stack = st := by
    rw [htakes.stack, Array.size_eq_zero_iff.1 htakes.taken, Array.append_empty]
  -- what is pushed is what the variable holds
  have hpush : ∀ v : Value, v.Obeys (binding L) →
      L.Contents m.heap m.frames ⟨a, Instruction.operand ⟨.loadFast, operands⟩ 0⟩ v →
      Advances L frame a ⟨.loadFast, operands⟩ m { m with stack := m.stack.push v } := by
    intro v hv hcontents
    refine .same rfl rfl (h.stays rfl rfl (.inl ⟨rfl, rfl⟩) h.store ?_)
      ⟨fun _ _ => Iff.rfl, v, hcontents, rfl⟩
    rw [hst]
    exact htakes.laid_push rfl rfl hv
  refine .loadFast h.frames hw (fun c hc => ?_) fun hplain => ?_
  · subst hc
    exact hpush _ (h.store.heap.cell c) (contents_cell h.store (h.activation.owned _ c hw))
  · refine hpush w ?_ ?_
    · rcases h.activation.locals w (Array.mem_of_getElem? hw) with hv | ⟨c, hc⟩
      · exact hv
      · exact absurd hc (hplain c)
    · rw [h.frames]
      refine (contents_iff_of_slot h.calls h.active fun c hc => ?_).2 hw
      have := h.activation.moved _ c hc
      rw [hw] at this
      exact hplain _ (Option.some.inj this)

theorem loadFree
    (h : Enacts L m frame callers older a offset ⟨.loadFree, operands⟩ s s' vals gathered) :
    Action.Ends (Action.execute su offset ⟨.loadFree, operands⟩) m
      (fun _ m' => Advances L frame a ⟨.loadFree, operands⟩ m m')
      (fun _ m' => Store L m'.heap m'.globals) := by
  obtain ⟨st, args, htakes⟩ := h.takes nofun nofun
  obtain ⟨c, x, hc, howner, hreaches⟩ := h.reaches nofun (lt_of_check h.stands.admits.operands)
  have hst : m.stack = st := by
    rw [htakes.stack, Array.size_eq_zero_iff.1 htakes.taken, Array.append_empty]
  refine .loadFree h.frames hc ?_
  refine .same rfl rfl (h.stays rfl rfl (.inl ⟨rfl, rfl⟩) h.store ?_)
    ⟨fun _ _ => Iff.rfl, x, _, hreaches, contents_cell h.store howner, rfl⟩
  rw [hst]
  exact htakes.laid_push rfl rfl (h.store.heap.cell c)

theorem storeFree
    (h : Enacts L m frame callers older a offset ⟨.storeFree, operands⟩ s s' vals gathered) :
    Action.Ends (Action.execute su offset ⟨.storeFree, operands⟩) m
      (fun _ m' => Advances L frame a ⟨.storeFree, operands⟩ m m')
      (fun _ m' => Store L m'.heap m'.globals) := by
  obtain ⟨st, args, htakes⟩ := h.takes nofun nofun
  obtain ⟨v, hv, hstack⟩ : ∃ v ∈ args, m.stack = st.push v :=
    htakes.stack ▸ append_one htakes.taken
  obtain ⟨c, x, hc, howner, hreaches⟩ := h.reaches nofun (lt_of_check h.stands.admits.operands)
  refine .storeFree h.frames hstack hc ?_
  exact .same rfl Array.size_setIfInBounds
    (h.stays rfl rfl (.inl ⟨rfl, rfl⟩) (h.store.setCell c (htakes.above v hv))
      (htakes.laid_empty rfl rfl))
    ⟨x, v, hreaches, hstack, fun y w => contents_setCell h.store howner y⟩

/-- The frame after a slot without a cell has been given a value. -/
theorem setLocal (h : Enacts L m frame callers older a offset ins s s' vals gathered) {i : Nat}
    {v : Value} (hv : v.Obeys (binding L)) (hplain : ∀ c, frame.locals[i]? ≠ some (.cell c)) :
    Activation L (frame.setLocal i v) a := by
  have hset : ∀ (j : Nat) (c : CellRef), (frame.setLocal i v).locals[j]? = some (.cell c) ↔
      frame.locals[j]? = some (.cell c) := by
    intro j c
    show (frame.locals.setIfInBounds i v)[j]? = _ ↔ _
    rw [Array.getElem?_setIfInBounds]
    split
    · rename_i hij
      subst hij
      split
      · simp [hv.ne_cell c, hplain c]
      · simp [hplain c]
    · exact Iff.rfl
  have hold := h.activation
  refine ⟨hold.function, hold.built, ?_, hold.captured, hold.names, fun j c hc => ?_,
    fun j c hc => ?_, fun w hw => ?_⟩
  · exact Nat.le_trans hold.slots (Nat.le_of_eq Array.size_setIfInBounds.symm)
  · exact hold.owned j c ((hset j c).1 hc)
  · exact (hset j ⟨c⟩).2 (hold.moved j c hc)
  · rcases Array.mem_or_eq_of_mem_setIfInBounds hw with hw | rfl
    · exact hold.locals w hw
    · exact .inl hv

theorem storeFast
    (h : Enacts L m frame callers older a offset ⟨.storeFast, operands⟩ s s' vals gathered) :
    Action.Ends (Action.execute su offset ⟨.storeFast, operands⟩) m
      (fun _ m' => Advances L frame a ⟨.storeFast, operands⟩ m m')
      (fun _ m' => Store L m'.heap m'.globals) := by
  obtain ⟨st, args, htakes⟩ := h.takes nofun nofun
  obtain ⟨v, hv, hstack⟩ : ∃ v ∈ args, m.stack = st.push v :=
    htakes.stack ▸ append_one htakes.taken
  obtain ⟨w, hw⟩ := h.slot (lt_of_check h.stands.admits.operands)
  refine .storeFast h.frames hstack hw (fun c hc => ?_) fun hplain => ?_
  · subst hc
    exact .same rfl Array.size_setIfInBounds
      (h.stays rfl rfl (.inl ⟨rfl, rfl⟩) (h.store.setCell c (htakes.above v hv))
        (htakes.laid_empty rfl rfl))
      ⟨v, hstack, fun y w => contents_setCell h.store (h.activation.owned _ c hw) y⟩
  · have hslot : ∀ c, frame.locals[Instruction.operand ⟨.storeFast, operands⟩ 0]? ≠
        some (.cell c) := by
      intro c hc
      rw [hw] at hc
      exact hplain c (Option.some.inj hc)
    refine .same (by simp [h.frames]) rfl
      (h.tracks (.refl L) rfl (fun _ _ _ _ hc => hc) (h.setLocal (htakes.above v hv) hslot)
        rfl rfl rfl rfl rfl (.inl ⟨rfl, rfl⟩) h.store (htakes.laid_empty rfl rfl))
      ⟨v, hstack, fun y w => ?_⟩
    rw [h.frames]
    exact contents_setLocal h.calls h.active (Array.getElem?_eq_some_iff.1 hw).1 hslot y

/-! ## Cells and closures -/

theorem moves_makeCell
    (h : Enacts L m frame callers older a offset ⟨.makeCell, operands⟩ s s' vals gathered) :
    s' = ⟨s.plain, s.cells ++ [Instruction.capture ⟨.makeCell, operands⟩]⟩ :=
  h.stands.admits.moves

/-- One more cell is gathered. -/
theorem laid_gather
    (h : Enacts L m frame callers older a offset ⟨.makeCell, operands⟩ s s' vals gathered)
    (hext : L.Extends L') (hgives : ∀ capture v, frame.Gives capture v → frame'.Gives capture v)
    (hbase : frame'.base = frame.base) {c : CellRef}
    (hc : frame'.Gives (Instruction.capture ⟨.makeCell, operands⟩) (.cell c)) :
    Laid L' frame' s' (m.stack.push (.cell c)) := by
  rw [h.moves_makeCell]
  refine ⟨vals, gathered.push (.cell c), ?_, ?_, fun v hv => (h.obey v hv).grow hext, ?_⟩
  · rw [h.stack, Array.append_push]
  · rw [h.size, hbase]
  · rw [Array.toList_push]
    exact List.rel_append (h.gives.imp hgives) (.cons hc .nil)

/-- A slot that has no cell is moved to a new one. -/
theorem moves_slot (h : Enacts L m frame callers older a offset ins s s' vals gathered) {i : Nat}
    {w : Value} (hw : frame.locals[i]? = some w) (hplain : ∀ c, w ≠ .cell c) :
    Activation (L.move i) (frame.setLocal i (.cell ⟨m.heap.cells.size⟩)) a ∧
      Store (L.move i) (m.heap.newCell w).2 m.globals := by
  have hold := h.activation
  have hext := L.extends_move i
  have hlt := (Array.getElem?_eq_some_iff.1 hw).1
  have hfree : ∀ c : Nat, L.owners[c]? ≠ some ⟨a, i⟩ := by
    intro c hc
    have := hold.moved i c hc
    rw [hw] at this
    exact hplain _ (Option.some.inj this)
  have howners : (L.move i).owners = L.owners.push ⟨a, i⟩ := by
    rw [Ledger.move, h.active, Array.back?_push]
    rfl
  have hobeys : w.Obeys (binding L) := by
    rcases hold.locals w (Array.mem_of_getElem? hw) with hv | ⟨c, hc⟩
    · exact hv
    · exact absurd hc (hplain c)
  have hset : ∀ j : Nat, (frame.setLocal i (.cell ⟨m.heap.cells.size⟩)).locals[j]? =
      if i = j then some (.cell ⟨m.heap.cells.size⟩) else frame.locals[j]? := by
    intro j
    show (frame.locals.setIfInBounds i _)[j]? = _
    rw [Array.getElem?_setIfInBounds]
    by_cases hij : i = j
    · rw [if_pos hij, if_pos hij, if_pos hlt]
    · rw [if_neg hij, if_neg hij]
  constructor
  · refine ⟨hext.calls _ _ hold.function, hold.built, ?_, hold.captured,
      fun j v c hv hc => (hold.names j v c hv hc).mono hext, fun j c hc => ?_, fun j c hc => ?_,
      fun v hv => ?_⟩
    · exact Nat.le_trans hold.slots (Nat.le_of_eq Array.size_setIfInBounds.symm)
    · rw [hset] at hc
      split at hc
      · rename_i hij
        cases hc
        rw [howners, ← h.store.size, hij]
        simp
      · exact hext.owners _ _ (hold.owned j c hc)
    · rw [howners] at hc
      rw [hset]
      rcases getElem?_push_cases hc with ⟨-, hc⟩ | ⟨hnew, heq⟩
      · rw [if_neg]
        · exact hold.moved j c hc
        · rintro rfl
          exact hfree c hc
      · cases heq
        rw [if_pos rfl, hnew, h.store.size]
    · rcases Array.mem_or_eq_of_mem_setIfInBounds hv with hv | rfl
      · exact (hold.locals v hv).imp (fun hv => hv.grow hext) id
      · exact .inr ⟨_, rfl⟩
  · refine ⟨?_, fun x hx => ?_, fun c c' x hc hc' => ?_, (h.store.heap.newCell hobeys).grow hext,
      h.store.globals.grow hext⟩
    · rw [howners, Array.size_push, h.store.size]
      exact (Array.size_push _).symm
    · rw [howners] at hx
      rcases Array.mem_push.1 hx with hx | rfl
      · exact h.store.begun x hx
      · exact (Array.getElem?_eq_some_iff.1 hold.function).1
    · rw [howners] at hc hc'
      rcases getElem?_push_cases hc with ⟨-, hc⟩ | ⟨hnew, rfl⟩
      · rcases getElem?_push_cases hc' with ⟨-, hc'⟩ | ⟨-, rfl⟩
        · exact h.store.distinct c c' x hc hc'
        · exact absurd hc (hfree c)
      · rcases getElem?_push_cases hc' with ⟨-, hc'⟩ | ⟨hnew', -⟩
        · exact absurd hc' (hfree c')
        · omega

theorem makeCell
    (h : Enacts L m frame callers older a offset ⟨.makeCell, operands⟩ s s' vals gathered) :
    Action.Ends (Action.execute su offset ⟨.makeCell, operands⟩) m
      (fun _ m' => Advances L frame a ⟨.makeCell, operands⟩ m m')
      (fun _ m' => Store L m'.heap m'.globals) := by
  have hoperands := h.stands.admits.operands
  unfold checkOperands at hoperands
  dsimp only at hoperands
  -- a cell that is there already is only pushed
  have hpush : ∀ c, frame.Gives (Instruction.capture ⟨.makeCell, operands⟩) (.cell c) →
      Advances L frame a ⟨.makeCell, operands⟩ m { m with stack := m.stack.push (.cell c) } := by
    intro c hc
    exact .same rfl rfl (h.stays rfl rfl (.inl ⟨rfl, rfl⟩) h.store
      (h.laid_gather (.refl L) (fun _ _ hv => hv) rfl hc)) fun _ _ => Iff.rfl
  split at hoperands
  · rename_i hsource
    have hcapture : Instruction.capture ⟨.makeCell, operands⟩ =
        .slot (Instruction.operand ⟨.makeCell, operands⟩ 0) := if_pos hsource
    obtain ⟨w, hw⟩ := h.slot (lt_of_check hoperands)
    refine .makeCell_slot h.frames hsource hw (fun c hc => ?_) fun hplain => ?_
    · subst hc
      refine hpush c ?_
      rw [hcapture]
      exact ⟨c, rfl, hw⟩
    · obtain ⟨hactivation, hstore⟩ := h.moves_slot hw hplain
      have hlt := (Array.getElem?_eq_some_iff.1 hw).1
      have hext := L.extends_move (Instruction.operand ⟨.makeCell, operands⟩ 0)
      have hgives : ∀ capture v, frame.Gives capture v → (frame.setLocal
          (Instruction.operand ⟨.makeCell, operands⟩ 0) (.cell ⟨m.heap.cells.size⟩)).Gives
            capture v := by
        rintro (i | j) v ⟨c, hv, hc⟩
        · refine ⟨c, hv, ?_⟩
          show (frame.locals.setIfInBounds _ _)[i]? = _
          rw [Array.getElem?_setIfInBounds_ne]
          · exact hc
          · rintro rfl
            rw [hw] at hc
            exact hplain c (Option.some.inj hc)
        · exact ⟨c, hv, hc⟩
      have hown : ∀ b, b ≠ a → ∀ c i : Nat, (L.move (Instruction.operand ⟨.makeCell, operands⟩
          0)).owners[c]? = some ⟨b, i⟩ → L.owners[c]? = some ⟨b, i⟩ := by
        intro b hb c i hc
        rw [Ledger.move, h.active, Array.back?_push] at hc
        rcases getElem?_push_cases hc with ⟨-, hc⟩ | ⟨-, heq⟩
        · exact hc
        · cases heq
          exact absurd rfl hb
      have hlaid : Laid (L.move (Instruction.operand ⟨.makeCell, operands⟩ 0))
          (frame.setLocal (Instruction.operand ⟨.makeCell, operands⟩ 0)
            (.cell ⟨m.heap.cells.size⟩)) s' (m.stack.push (.cell ⟨m.heap.cells.size⟩)) := by
        refine h.laid_gather hext hgives rfl ?_
        rw [hcapture]
        exact ⟨_, rfl, Array.getElem?_setIfInBounds_self_of_lt hlt⟩
      unfold Advances Ledger.after
      rw [if_neg (by simp [h.frames]), if_neg (by simp [h.frames]),
        if_pos (by simp [Heap.newCell])]
      refine ⟨h.tracks hext rfl hown hactivation rfl rfl rfl rfl rfl (.inl ⟨rfl, rfl⟩) hstore hlaid,
        fun x v => ?_⟩
      rw [h.frames]
      exact contents_move h.calls h.active h.store hw hplain _ x
  · rename_i hsource
    have hcapture : Instruction.capture ⟨.makeCell, operands⟩ =
        .free (Instruction.operand ⟨.makeCell, operands⟩ 0) := by
      unfold Instruction.capture
      rw [hsource]
      rfl
    obtain ⟨c, x, hc, -⟩ := h.reaches (fun hplace => by cases hplace) (lt_of_check hoperands)
    refine .makeCell_free h.frames hsource hc (hpush c ?_)
    rw [hcapture]
    exact ⟨c, rfl, hc⟩
  · cases hoperands

end Enacts

end Ember
