import Ember.Proofs.Machine.Actions
import Ember.Proofs.Verify.Heights

/-! Instructions that make no closure and change no slot, cell or frame. Where the tables and the
frame have what such an instruction asks for, it takes off the stack and pushes what its effect
says, goes on with the next instruction or with its target, and fails only for reasons that lie in
the values. -/
namespace Ember
set_option autoImplicit false

/-- The instruction makes no closure and changes no slot, cell or frame. -/
def Opcode.isQuiet : Opcode → Bool
  | .storeFast | .storeFree | .makeCell | .loadClosure | .call | .returnValue | .halt => false
  | _ => true

def Globals.Obeys (P : Policy) (g : Globals) : Prop := ∀ name v, g.get? name = some v → v.Obeys P

theorem Globals.obeys_empty (P : Policy) : Globals.empty.Obeys P := by
  intro name v hv
  simp [Globals.empty, Globals.get?, OrderedMap.get?, OrderedMap.empty] at hv

theorem Globals.Obeys.imp {P Q : Policy} {g : Globals} (h : g.Obeys P)
    (hPQ : ∀ v : Value, P.allows v → Q.allows v) : g.Obeys Q :=
  fun name v hv => hPQ _ (h name v hv)

namespace Machine

/-- The tables of the function and its frame have what an instruction asks for. -/
structure Serves (P : Policy) (m : Machine) (frame : Frame) (offset : Nat) (ins : Instruction) :
    Prop where
  decoded : decode m.function.code offset = .ok ins
  operands : checkOperands m.function ins = .ok ()
  place : checkPlace m.function.scope.kind ins.op = .ok ()
  lands : ins.op.isJump = true → ∃ t, ins.target? offset = some t
  active : m.frames.back? = some frame
  slots : m.function.localCount ≤ frame.locals.size
  captured : m.function.scope.kind = .function →
    frame.cells.size = m.function.freeVariables.size
  locals : ∀ v ∈ frame.locals, v.Obeys P ∨ ∃ c, v = .cell c
  heap : m.heap.Obeys P
  globals : m.globals.Obeys P

/-- What quiet instructions leave as it is. -/
structure Undisturbed (P : Policy) (m m' : Machine) : Prop where
  function : m'.function = m.function
  frames : m'.frames = m.frames
  heap : m.heap.Kept P m'.heap
  globals : m'.globals.Obeys P

/-- Above `st` lies what the instruction pushes, and the run goes on with what follows or with the
target of a jump. -/
structure Follows (P : Policy) (m : Machine) (st : Array Value) (offset : Nat) (ins : Instruction)
    (m' : Machine) : Prop where
  undisturbed : Undisturbed P m m'
  stack : ∃ pushed, m'.stack = st ++ pushed ∧ pushed.size = ins.pushes ∧ ∀ v ∈ pushed, v.Obeys P
  ip : (ins.fallsThrough = true ∧ m'.ip = m.ip) ∨ ins.target? offset = some m'.ip

/-- The fault lies in the values, and little has been touched. -/
def Balks (P : Policy) (m : Machine) (fault : Fault) (m' : Machine) : Prop :=
  fault.Ordinary ∧ Undisturbed P m m'

end Machine

/-! ## The upper part of the stack -/

section
variable {st args : Array Value}

theorem append_one (h : args.size = 1) : ∃ v ∈ args, st ++ args = st.push v := by
  obtain ⟨v, rfl⟩ := Array.size_eq_one_iff.1 h
  exact ⟨v, by simp, by simp⟩

theorem append_two (h : args.size = 2) :
    ∃ v ∈ args, ∃ w ∈ args, st ++ args = (st.push v).push w := by
  obtain ⟨init, w, rfl⟩ := Array.exists_push_of_size_eq_add_one h
  obtain ⟨v, hv, hst⟩ : ∃ v ∈ init, st ++ init = st.push v := append_one (by simpa using h)
  refine ⟨v, Array.mem_push_of_mem w hv, w, Array.mem_push_self, ?_⟩
  rw [← hst, Array.append_push]

theorem append_three (h : args.size = 3) :
    ∃ u ∈ args, ∃ v ∈ args, ∃ w ∈ args, st ++ args = ((st.push u).push v).push w := by
  obtain ⟨init, w, rfl⟩ := Array.exists_push_of_size_eq_add_one h
  obtain ⟨u, hu, v, hv, hst⟩ : ∃ u ∈ init, ∃ v ∈ init, st ++ init = (st.push u).push v :=
    append_two (by simpa using h)
  refine ⟨u, Array.mem_push_of_mem w hu, v, Array.mem_push_of_mem w hv, w, Array.mem_push_self, ?_⟩
  rw [← hst, Array.append_push]

end

/-! ## Ends of instructions -/

section
variable {P : Policy} {m m₀ : Machine} {st : Array Value} {offset : Nat} {ins : Instruction}

namespace Machine

theorem Undisturbed.refl (hheap : m.heap.Obeys P) (hglobals : m.globals.Obeys P) :
    Undisturbed P m m := ⟨rfl, rfl, .refl hheap, hglobals⟩

theorem Undisturbed.balks {fault : Fault} (h : Undisturbed P m m₀) (hfault : fault.Ordinary) :
    Balks P m fault m₀ := ⟨hfault, h⟩

/-- An instruction that pushes nothing is done. -/
theorem Undisturbed.done (h : Undisturbed P m m₀) (hst : m₀.stack = st)
    (hip : (ins.fallsThrough = true ∧ m₀.ip = m.ip) ∨ ins.target? offset = some m₀.ip)
    (hpushes : ins.pushes = 0) : Follows P m st offset ins m₀ :=
  ⟨h, ⟨#[], by simp [hst], hpushes.symm, fun v hv => absurd hv (Array.not_mem_empty v)⟩, hip⟩

/-- An instruction ends with a push. -/
theorem Undisturbed.push (h : Undisturbed P m m₀) (hst : m₀.stack = st) (hip : m₀.ip = m.ip)
    {v : Value} (hv : v.Obeys P) (hpushes : ins.pushes = 1) (hfalls : ins.fallsThrough = true) :
    Action.Ends (Action.push v) m₀ (fun _ => Follows P m st offset ins) (Balks P m) := by
  refine Action.Ends.push ⟨⟨h.function, h.frames, h.heap, h.globals⟩, ⟨#[v], ?_, ?_, ?_⟩, ?_⟩
  · rw [← hst]
    simp
  · exact hpushes.symm
  · intro w hw
    rw [List.mem_singleton.1 (Array.mem_toList_iff.2 hw)]
    exact hv
  · exact .inl ⟨hfalls, hip⟩

/-- An instruction asks the heap for the value that it pushes. -/
theorem Undisturbed.ask (h : Undisturbed P m m₀) (hst : m₀.stack = st) (hip : m₀.ip = m.ip)
    {f : Heap → Except Fault Value} (hf : Promises (f m₀.heap) (Value.Obeys P) Fault.Ordinary)
    (hpushes : ins.pushes = 1) (hfalls : ins.fallsThrough = true) :
    Action.Ends (Action.ask f >>= Action.push) m₀ (fun _ => Follows P m st offset ins)
      (Balks P m) :=
  .bind (.ask hf (fun _ hv => h.push hst hip hv hpushes hfalls) fun _ he => h.balks he)

/-- An instruction works on the heap and pushes what comes out. -/
theorem Undisturbed.onHeap (h : Undisturbed P m m₀) (hst : m₀.stack = st) (hip : m₀.ip = m.ip)
    {x : OnHeap Fault Value} (hx : Keeps P x (Value.Obeys P) Fault.Ordinary)
    (hpushes : ins.pushes = 1) (hfalls : ins.fallsThrough = true) :
    Action.Ends (Action.onHeap x >>= Action.push) m₀ (fun _ => Follows P m st offset ins)
      (Balks P m) := by
  have hafter : ∀ heap, m₀.heap.Kept P heap → Undisturbed P m { m₀ with heap } :=
    fun heap hkept => ⟨h.function, h.frames, h.heap.trans hkept, h.globals⟩
  exact .bind (.onHeap hx h.heap.obeys
    (fun v heap hkept hv => (hafter heap hkept).push hst hip hv hpushes hfalls)
    fun e heap hkept he => (hafter heap hkept).balks he)

/-- An instruction changes the heap and pushes nothing. -/
theorem Undisturbed.change (h : Undisturbed P m m₀) (hst : m₀.stack = st) (hip : m₀.ip = m.ip)
    {x : OnHeap Fault Unit} (hx : Keeps P x (fun _ => True) Fault.Ordinary)
    (hpushes : ins.pushes = 0) (hfalls : ins.fallsThrough = true) :
    Action.Ends (Action.onHeap x) m₀ (fun _ => Follows P m st offset ins) (Balks P m) := by
  have hafter : ∀ heap, m₀.heap.Kept P heap → Undisturbed P m { m₀ with heap } :=
    fun heap hkept => ⟨h.function, h.frames, h.heap.trans hkept, h.globals⟩
  exact .onHeap hx h.heap.obeys
    (fun _ heap hkept _ => (hafter heap hkept).done hst (.inl ⟨hfalls, hip⟩) hpushes)
    fun e heap hkept he => (hafter heap hkept).balks he

end Machine

theorem entriesOf_promises {parts : List Value} (h : ∀ v ∈ parts, v.Obeys P)
    {found : OrderedMap Key Value} (hfound : ∀ e ∈ found.entries, e.2.Obeys P) :
    Promises (Action.entriesOf parts found) (fun entries => ∀ e ∈ entries.entries, e.2.Obeys P)
      Fault.Ordinary := by
  fun_induction Action.entriesOf parts found with
  | case1 k v rest found key hkey ih =>
    refine ih (fun w hw => h w (by simp [hw])) fun e he => ?_
    rcases OrderedMap.mem_entries_insert he with he | rfl
    · exact hfound e he
    · exact h v (by simp)
  | case2 k v rest found e hkey =>
    have := keyOf_promises k
    rwa [hkey] at this
  | case3 => exact hfound

theorem membersOf_promises (items : List Value) (found : OrderedMap Key Unit) :
    Promises (Action.membersOf items found) (fun _ => True) Fault.Ordinary := by
  fun_induction Action.membersOf items found with
  | case1 => trivial
  | case2 v rest found key hkey ih => exact ih
  | case3 v rest found e hkey =>
    have := keyOf_promises v
    rwa [hkey] at this

/-! ## Quiet instructions -/

theorem hasOperator_of_decode {code : Array UInt8} {pos : Nat} (h : decode code pos = .ok ins) :
    ins.hasOperator = true :=
  (Instruction.decode_eq_ok h).2.2.2

theorem Globals.Obeys.set {g : Globals} (h : g.Obeys P) (name : String) {v : Value}
    (hv : v.Obeys P) : (g.set name v).Obeys P := by
  intro n w hw
  rw [Globals.get?, Globals.set] at hw
  dsimp only at hw
  by_cases hn : n = name
  · rw [hn, OrderedMap.get?_insert_self] at hw
    cases hw
    exact hv
  · rw [OrderedMap.get?_insert_of_ne v hn] at hw
    exact h n w hw

theorem lt_of_check {i n : Nat} {fault : VerifyFault}
    (h : (if i < n then Except.ok () else .error fault) = .ok ()) : i < n := by
  split at h
  · assumption
  · cases h

theorem returnFlag_le_one {f : Routine Value} {operands : List Nat}
    (h : checkOperands f ⟨.returnValue, operands⟩ = .ok ()) :
    Instruction.operand ⟨.returnValue, operands⟩ 0 ≤ 1 := by
  unfold checkOperands at h
  dsimp only at h
  split at h
  · assumption
  · cases h

/-- Slots, cells and returns are met only in functions. -/
theorem kind_of_place {kind : ScopeKind} {op : Opcode} (h : checkPlace kind op = .ok ())
    (hop : checkPlace .topLevel op ≠ .ok ()) : kind = .function := by
  cases kind with
  | topLevel => exact absurd h hop
  | function => rfl

theorem jumpIf_ends {expected : Bool} {v : Value} (hu : m.Undisturbed P m)
    (hstack : m.stack = st.push v) (hlands : ∃ t, ins.target? offset = some t)
    (hpushes : ins.pushes = 0) (hfalls : ins.fallsThrough = true) :
    Action.Ends (Action.jumpIf expected ins offset) m (fun _ => m.Follows P st offset ins)
      (m.Balks P) := by
  obtain ⟨t, ht⟩ := hlands
  have hstay : m.Undisturbed P { m with stack := st } := ⟨rfl, rfl, hu.heap, hu.globals⟩
  refine .bind (.pop hstack (.bind (.ask (A := fun _ => True) (B := Fault.Ordinary) trivial
    (fun holds _ => ?_) fun e he => hstay.balks he)))
  split
  · exact .jump offset ht
      (Machine.Undisturbed.done ⟨rfl, rfl, hu.heap, hu.globals⟩ rfl (.inr ht) hpushes)
  · exact .pure (hstay.done rfl (.inl ⟨hfalls, rfl⟩) hpushes)

variable {frame : Frame} {args : Array Value}

theorem loadFast_ends (hserves : m.Serves P frame offset ins) {i : Nat}
    (hi : i < frame.locals.size) {Q : Value → Machine → Prop} {E : Fault → Machine → Prop}
    (hQ : ∀ v : Value, v.Obeys P → Q v m) : Action.Ends (Action.loadFast i) m Q E := by
  have hslot := Array.getElem?_eq_getElem hi
  refine .bind (.slot hserves.active hslot ?_)
  rcases hserves.locals _ (Array.mem_of_getElem? hslot) with hv | ⟨c, hc⟩
  · split
    · exact hQ _ (hserves.heap.cell _)
    · exact hQ _ hv
  · rw [hc]
    exact hQ _ (hserves.heap.cell c)

theorem execute_quiet (s : Surroundings) (hserves : m.Serves P frame offset ins)
    (hquiet : ins.op.isQuiet = true) (hstack : m.stack = st ++ args) (hsize : args.size = ins.pops)
    (hargs : ∀ v ∈ args, v.Obeys P)
    (hconstant : ins.op = .loadConst → ∀ v, m.function.constants[ins.operand 0]? = some v →
      v.Obeys P) :
    Action.Ends (Action.execute s offset ins) m (fun _ => m.Follows P st offset ins)
      (m.Balks P) := by
  have hstay : m.Undisturbed P m := .refl hserves.heap hserves.globals
  have hdrop : ∀ stack, m.Undisturbed P { m with stack } :=
    fun stack => ⟨rfl, rfl, .refl hserves.heap, hserves.globals⟩
  have hnone : args.size = 0 → m.stack = st := by
    intro h
    rw [hstack, Array.size_eq_zero_iff.1 h, Array.append_empty]
  have hone : args.size = 1 → ∃ v ∈ args, m.stack = st.push v := by
    intro h
    rw [hstack]
    exact append_one h
  have htwo : args.size = 2 → ∃ v ∈ args, ∃ w ∈ args, m.stack = (st.push v).push w := by
    intro h
    rw [hstack]
    exact append_two h
  have hoperands := hserves.operands
  have hselector := hasOperator_of_decode hserves.decoded
  have hlands := hserves.lands
  obtain ⟨op, operands⟩ := ins
  cases op with
  | storeFast | storeFree | makeCell | loadClosure | call | returnValue | halt => cases hquiet
  | nop => exact .pure (hstay.done (hnone hsize) (.inl ⟨rfl, rfl⟩) rfl)
  | popTop =>
    obtain ⟨v, -, hst⟩ := hone hsize
    exact .bind (.pop hst (.pure ((hdrop st).done rfl (.inl ⟨rfl, rfl⟩) rfl)))
  | print =>
    obtain ⟨v, -, hst⟩ := hone hsize
    exact .bind (.pop hst (Machine.Undisturbed.done ⟨rfl, rfl, .refl hserves.heap, hserves.globals⟩
      rfl (.inl ⟨rfl, rfl⟩) rfl))
  | pushNil => exact hstay.push (hnone hsize) rfl (Value.obeys_of_plain rfl rfl) rfl rfl
  | pushTrue => exact hstay.push (hnone hsize) rfl (Value.obeys_of_plain rfl rfl) rfl rfl
  | pushFalse => exact hstay.push (hnone hsize) rfl (Value.obeys_of_plain rfl rfl) rfl rfl
  | loadConst =>
    have hv := Array.getElem?_eq_getElem (lt_of_check hoperands)
    exact .bind (.constant hv (hstay.push (hnone hsize) rfl (hconstant rfl _ hv) rfl rfl))
  | loadFast =>
    have hi := lt_of_check hoperands
    have hslots := hserves.slots
    exact .bind (loadFast_ends hserves (by omega)
      fun v hv => hstay.push (hnone hsize) rfl hv rfl rfl)
  | loadFree =>
    have hi := lt_of_check hoperands
    have hkind := kind_of_place hserves.place (by simp [checkPlace])
    have hc := Array.getElem?_eq_getElem (hserves.captured hkind ▸ hi)
    exact .bind (.freeCell hserves.active hc
      (.bind (hstay.push (hnone hsize) rfl (hserves.heap.cell _) rfl rfl)))
  | loadGlobal | loadName =>
    refine .bind (.name (lt_of_check hoperands) fun n => .bind ?_)
    unfold Action.Ends Action.loadGlobal
    cases hn : m.globals.get? n with
    | none => exact hstay.balks rfl
    | some v => exact hstay.push (hnone hsize) rfl (hserves.globals n v hn) rfl rfl
  | storeGlobal | storeName =>
    obtain ⟨v, hv, hst⟩ := hone hsize
    refine .bind (.name (lt_of_check hoperands) fun n => .bind (.pop hst ?_))
    exact Machine.Undisturbed.done ⟨rfl, rfl, .refl hserves.heap, hserves.globals.set n
      (hargs v hv)⟩
      rfl (.inl ⟨rfl, rfl⟩) rfl
  | buildList =>
    exact .bind (.popMany hstack hsize ((hdrop st).onHeap rfl rfl (keeps_newList hargs) rfl rfl))
  | buildMap =>
    refine .bind (.popMany hstack hsize (.bind (.ask
      (entriesOf_promises (fun v hv => hargs v (Array.mem_toList_iff.1 hv))
        fun e he => absurd he (Array.not_mem_empty e))
      (fun entries hentries => ?_) fun e he => (hdrop st).balks he)))
    exact (hdrop st).onHeap rfl rfl (keeps_newMap hentries) rfl rfl
  | buildSet =>
    refine .bind (.popMany hstack hsize (.bind (.ask (membersOf_promises _ _)
      (fun members _ => ?_) fun e he => (hdrop st).balks he)))
    exact (hdrop st).onHeap rfl rfl (keeps_newSet members) rfl rfl
  | binarySubscr =>
    obtain ⟨container, -, key, -, hst⟩ := htwo hsize
    exact .bind (.popTwo hst
      ((hdrop st).ask rfl rfl (getItem_promises hserves.heap container key) rfl rfl))
  | storeSubscr =>
    obtain ⟨v, hv, container, -, key, -, hst⟩ : ∃ u ∈ args, ∃ v ∈ args, ∃ w ∈ args,
        m.stack = ((st.push u).push v).push w := hstack ▸ append_three hsize
    exact .bind (.popTwo hst (.bind (.pop rfl
      ((hdrop st).change rfl rfl (setItem_keeps (hargs v hv) container key) rfl rfl))))
  | deleteSubscr =>
    obtain ⟨container, -, key, -, hst⟩ := htwo hsize
    exact .bind (.popTwo hst ((hdrop st).change rfl rfl (deleteItem_keeps container key) rfl rfl))
  | loadAttr =>
    obtain ⟨object, -, hst⟩ := hone hsize
    exact .bind (.name (lt_of_check hoperands) fun n => .bind (.pop hst
      ((hdrop st).ask rfl rfl (getAttribute_promises hserves.heap object n) rfl rfl)))
  | storeAttr =>
    obtain ⟨v, hv, object, -, hst⟩ := htwo hsize
    exact .bind (.name (lt_of_check hoperands) fun n => .bind (.pop hst (.bind (.pop rfl
      ((hdrop st).change rfl rfl (setAttribute_keeps (hargs v hv) object n) rfl rfl)))))
  | binaryOp =>
    obtain ⟨v, -, w, -, hst⟩ := htwo hsize
    obtain ⟨op, hop⟩ := Option.isSome_iff_exists.1 hselector
    unfold Action.execute
    dsimp only
    rw [hop]
    exact .bind (.popTwo hst ((hdrop st).onHeap rfl rfl (binary_keeps op v w) rfl rfl))
  | compareOp =>
    obtain ⟨v, -, w, -, hst⟩ := htwo hsize
    obtain ⟨op, hop⟩ := Option.isSome_iff_exists.1 hselector
    unfold Action.execute
    dsimp only
    rw [hop]
    exact .bind (.popTwo hst
      ((hdrop st).ask rfl rfl (comparison_promises m.heap op v w) rfl rfl))
  | unaryNegative =>
    obtain ⟨v, -, hst⟩ := hone hsize
    exact .bind (.pop hst ((hdrop st).ask rfl rfl (negate_promises v) rfl rfl))
  | unaryPositive =>
    obtain ⟨v, -, hst⟩ := hone hsize
    exact .bind (.pop hst ((hdrop st).ask rfl rfl (affirm_promises v) rfl rfl))
  | unaryInvert =>
    obtain ⟨v, -, hst⟩ := hone hsize
    exact .bind (.pop hst ((hdrop st).ask rfl rfl (complement_promises v) rfl rfl))
  | unaryNot =>
    obtain ⟨v, -, hst⟩ := hone hsize
    exact .bind (.pop hst (.bind (.ask (A := fun _ => True) (B := Fault.Ordinary) trivial
      (fun holds _ => (hdrop st).push rfl rfl (Value.obeys_of_plain rfl rfl) rfl rfl)
      fun e he => (hdrop st).balks he)))
  | jumpForward | jumpBackward =>
    obtain ⟨t, ht⟩ := hlands rfl
    exact .jump offset ht (Machine.Undisturbed.done ⟨rfl, rfl, .refl hserves.heap, hserves.globals⟩
      (hnone hsize) (.inr ht) rfl)
  | popJumpForwardIfTrue | popJumpForwardIfFalse | popJumpBackwardIfTrue
  | popJumpBackwardIfFalse =>
    obtain ⟨v, -, hst⟩ := hone hsize
    exact jumpIf_ends hstay hst (hlands rfl) rfl rfl

end

/-! ## Before an instruction -/

theorem Action.Ends.checkLimits {m : Machine} {s : Surroundings} {Q : Unit → Machine → Prop}
    {E : Fault → Machine → Prop} (hQ : Q () { m with steps := m.steps + 1 })
    (hE : ∀ fault : Fault, fault.Ordinary → E fault { m with steps := m.steps + 1 }) :
    Action.Ends (Action.checkLimits s.settings) m Q E := by
  have hstack : Action.Ends (Action.checkLimits.checkStack s.settings)
      { m with steps := m.steps + 1 } Q E := by
    unfold Action.Ends Action.checkLimits.checkStack
    dsimp only
    by_cases hsize : s.settings.maxStackSize < m.stack.size
    · rw [if_pos hsize]
      exact hE _ rfl
    · rw [if_neg hsize]
      exact hQ
  unfold Action.Ends Action.checkLimits
  dsimp only
  cases s.settings.maxSteps with
  | none => exact hstack
  | some limit =>
    dsimp only
    by_cases hlimit : limit < m.steps + 1
    · rw [if_pos hlimit]
      exact hE _ rfl
    · rw [if_neg hlimit]
      exact hstack

theorem Action.Ends.fetch {m : Machine} {ins : Instruction} {Q : Nat × Instruction → Machine → Prop}
    {E : Fault → Machine → Prop} (h : decode m.function.code m.ip = .ok ins)
    (hQ : Q (m.ip, ins) { m with ip := m.ip + ins.size }) : Action.Ends Action.fetch m Q E := by
  unfold Action.Ends Action.fetch
  rw [h]
  exact hQ

end Ember
