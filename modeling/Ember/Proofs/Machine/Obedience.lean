import Ember.Proofs.Machine.Places

/-! Policies along runs of any code, accepted or not. Whatever instruction is executed, and also
where it fails, the values that it leaves were there before, were made by an operator or a builtin,
or are closures of functions among the constants. So a run keeps within a policy that looks at the
code of functions and closures, and it rebinds a name only by an instruction that stores to that
name. -/
namespace Ember
set_option autoImplicit false

/-! ## Policies on code -/

/-- Allows the values whose calls run a function that `A` holds of, and all that cannot be
called. -/
def Policy.onCode (A : Routine Value → Prop) : Policy where
  allows v := ∀ f cells, v.callee? = some (f, cells) → A f
  plain v hplain _ := by
    intro f cells hv
    cases v <;> cases hv <;> cases hplain

/-- What holds of a function holds of the functions among its constants. -/
def Hereditary (A : Routine Value → Prop) : Prop :=
  ∀ f, A f → ∀ v ∈ f.constants, v.Obeys (.onCode A)

namespace Machine

/-- Every value that the machine can come across obeys the policy. -/
structure Obeys (P : Policy) (m : Machine) : Prop where
  stack : ∀ v ∈ m.stack, v.Obeys P
  constants : ∀ v ∈ m.function.constants, v.Obeys P
  frames : ∀ frame ∈ m.frames, (∀ v ∈ frame.locals, v.Obeys P) ∧
    ∀ v ∈ frame.function.constants, v.Obeys P
  heap : m.heap.Obeys P
  globals : m.globals.Obeys P

end Machine

/-! ## Actions -/

/-- Whether the action succeeds or fails, the machine still obeys the policy, and no name has been
rebound. -/
def Action.Minds {α : Type} (P : Policy) (x : Action α) (Q : α → Prop) : Prop :=
  ∀ m : Machine, m.Obeys P → Ends x m (fun a m' => m'.Obeys P ∧ m'.globals = m.globals ∧ Q a)
    fun _ m' => m'.Obeys P ∧ m'.globals = m.globals

namespace Action.Minds

variable {α β : Type} {P : Policy} {Q : α → Prop} {R : β → Prop}

theorem pure {a : α} (h : Q a) : Minds P (pure a) Q := fun _ hm => ⟨hm, rfl, h⟩

theorem throw (fault : Fault) : Minds P (throw fault : Action α) Q := fun _ hm => ⟨hm, rfl⟩

theorem bind {x : Action α} {k : α → Action β} (hx : Minds P x Q)
    (hk : ∀ a, Q a → Minds P (k a) R) : Minds P (x >>= k) R := by
  intro m hm
  refine .bind ((hx m hm).mono (fun a m₁ h => ?_) fun _ _ h => h)
  obtain ⟨hm₁, hglobals, ha⟩ := h
  exact (hk a ha m₁ hm₁).mono
    (fun b m' h => ⟨h.1, h.2.1.trans hglobals, h.2.2⟩) fun _ _ h => ⟨h.1, h.2.trans hglobals⟩

/-! ### The stack and the heap -/

theorem mem_of_mem_pop {α : Type} {a : Array α} {x : α} (h : x ∈ a.pop) : x ∈ a := by
  rw [← Array.mem_toList_iff, Array.toList_pop] at h
  exact Array.mem_toList_iff.1 (List.dropLast_subset _ h)

theorem mem_of_mem_shrink {α : Type} {a : Array α} {n : Nat} {x : α} (h : x ∈ a.shrink n) :
    x ∈ a := by
  rw [Array.shrink_eq_take, Array.take_eq_extract] at h
  exact mem_of_mem_extract h

theorem push {v : Value} (hv : v.Obeys P) : Minds P (push v) fun _ => True := by
  intro m hm
  refine ⟨⟨fun w hw => ?_, hm.constants, hm.frames, hm.heap, hm.globals⟩, rfl, trivial⟩
  rcases Array.mem_push.1 hw with hw | rfl
  · exact hm.stack w hw
  · exact hv

theorem pop : Minds P pop (Value.Obeys P) := by
  intro m hm
  unfold Ends Action.pop
  cases hback : m.stack.back? with
  | none => exact ⟨hm, rfl⟩
  | some v =>
    exact ⟨⟨fun w hw => hm.stack w (mem_of_mem_pop hw), hm.constants, hm.frames, hm.heap,
      hm.globals⟩, rfl, hm.stack v (Array.mem_of_back? hback)⟩

theorem popMany (n : Nat) : Minds P (popMany n) fun values => ∀ v ∈ values, v.Obeys P := by
  intro m hm
  unfold Ends Action.popMany
  dsimp only
  by_cases hsize : m.stack.size < n
  · rw [if_pos hsize]
    exact ⟨hm, rfl⟩
  · rw [if_neg hsize]
    exact ⟨⟨fun v hv => hm.stack v (mem_of_mem_shrink hv), hm.constants, hm.frames, hm.heap,
      hm.globals⟩, rfl, fun v hv => hm.stack v (mem_of_mem_extract hv)⟩

theorem popTwo : Minds P popTwo fun found => found.1.Obeys P ∧ found.2.Obeys P :=
  pop.bind fun _ hsecond => pop.bind fun _ hfirst => pure ⟨hfirst, hsecond⟩

theorem onHeap {x : OnHeap Fault α} {E : Fault → Prop} (hx : Keeps P x Q E) :
    Minds P (onHeap x) Q := by
  intro m hm
  refine .onHeap hx hm.heap (fun a h hkept ha => ?_) fun _ h hkept _ => ?_
  · exact ⟨⟨hm.stack, hm.constants, hm.frames, hkept.obeys, hm.globals⟩, rfl, ha⟩
  · exact ⟨⟨hm.stack, hm.constants, hm.frames, hkept.obeys, hm.globals⟩, rfl⟩

theorem modifyGet {f : Heap → α × Heap}
    (hf : ∀ h : Heap, h.Obeys P → (f h).2.Obeys P ∧ Q (f h).1) :
    Minds P (Action.onHeap (modifyGet f)) Q := by
  intro m hm
  obtain ⟨hheap, hvalue⟩ := hf m.heap hm.heap
  exact .modifyGet ⟨⟨hm.stack, hm.constants, hm.frames, hheap, hm.globals⟩, rfl, hvalue⟩

theorem ask {f : Heap → Except Fault α} {E : Fault → Prop}
    (hf : ∀ h : Heap, h.Obeys P → Promises (f h) Q E) : Minds P (ask f) Q := by
  intro m hm
  exact .ask (hf m.heap hm.heap) (fun a ha => ⟨hm, rfl, ha⟩) fun _ _ => ⟨hm, rfl⟩

theorem readCell (c : CellRef) : Minds P (readCell c) (Value.Obeys P) :=
  fun _ hm => ⟨hm, rfl, hm.heap.cell c⟩

theorem writeCell (c : CellRef) {v : Value} (hv : v.Obeys P) :
    Minds P (writeCell c v) fun _ => True :=
  fun _ hm => ⟨⟨hm.stack, hm.constants, hm.frames, hm.heap.setCell c hv, hm.globals⟩, rfl, trivial⟩

theorem print (v : Value) : Minds P (print v) fun _ => True :=
  fun _ hm => ⟨⟨hm.stack, hm.constants, hm.frames, hm.heap, hm.globals⟩, rfl, trivial⟩

theorem jump (target : Option Nat) (offset : Nat) : Minds P (jump target offset) fun _ => True := by
  intro m hm
  unfold Ends Action.jump
  cases target with
  | none => exact ⟨hm, rfl⟩
  | some ip => exact ⟨⟨hm.stack, hm.constants, hm.frames, hm.heap, hm.globals⟩, rfl, trivial⟩

/-! ### Tables and names -/

theorem constant (i : Nat) : Minds P (constant i) (Value.Obeys P) := by
  intro m hm
  unfold Ends Action.constant
  cases hv : m.function.constants[i]? with
  | none => exact ⟨hm, rfl⟩
  | some v => exact ⟨hm, rfl, hm.constants v (Array.mem_of_getElem? hv)⟩

theorem name (i : Nat) : Minds P (name i) fun _ => True := by
  intro m hm
  unfold Ends Action.name
  cases hn : m.function.names[i]? with
  | none => exact ⟨hm, rfl⟩
  | some n => exact ⟨hm, rfl, trivial⟩

theorem loadGlobal (n : String) : Minds P (loadGlobal n) (Value.Obeys P) := by
  intro m hm
  unfold Ends Action.loadGlobal
  cases hv : m.globals.get? n with
  | none => exact ⟨hm, rfl⟩
  | some v => exact ⟨hm, rfl, hm.globals n v hv⟩

/-! ### Slots and cells -/

theorem slot (i : Nat) : Minds P (slot i) (Value.Obeys P) := by
  intro m hm
  unfold Ends Action.slot
  cases hframe : m.frames.back? with
  | none => exact ⟨hm, rfl⟩
  | some frame =>
    dsimp only
    cases hv : frame.locals[i]? with
    | none => exact ⟨hm, rfl⟩
    | some v =>
      exact ⟨hm, rfl, (hm.frames frame (Array.mem_of_back? hframe)).1 v (Array.mem_of_getElem? hv)⟩

theorem setSlot (i : Nat) {v : Value} (hv : v.Obeys P) : Minds P (setSlot i v) fun _ => True := by
  intro m hm
  refine ⟨⟨hm.stack, hm.constants, fun frame hframe => ?_, hm.heap, hm.globals⟩, rfl, trivial⟩
  have hframe : frame ∈ m.frames.modify (m.frames.size - 1) fun f => f.setLocal i v := hframe
  rcases Heap.mem_modify hframe with hframe | ⟨old, hold, rfl⟩
  · exact hm.frames frame hframe
  · obtain ⟨hlocals, hconstants⟩ := hm.frames old hold
    refine ⟨fun w hw => ?_, hconstants⟩
    rcases Array.mem_or_eq_of_mem_setIfInBounds hw with hw | rfl
    · exact hlocals w hw
    · exact hv

theorem freeCell (i : Nat) : Minds P (freeCell i) fun _ => True := by
  intro m hm
  unfold Ends Action.freeCell
  cases hframe : m.frames.back? with
  | none => exact ⟨hm, rfl⟩
  | some frame =>
    dsimp only
    cases hc : frame.cells[i]? with
    | none => exact ⟨hm, rfl⟩
    | some c => exact ⟨hm, rfl, trivial⟩

theorem loadFast (i : Nat) : Minds P (loadFast i) (Value.Obeys P) := by
  refine (slot i).bind fun v hv => ?_
  split
  · exact readCell _
  · exact pure hv

theorem storeFast (i : Nat) {v : Value} (hv : v.Obeys P) :
    Minds P (storeFast i v) fun _ => True := by
  refine (slot i).bind fun w _ => ?_
  split
  · exact writeCell _ hv
  · exact setSlot i hv

variable {A : Routine Value → Prop} {s : Surroundings}

theorem cellOfSlot (i : Nat) : Minds (.onCode A) (cellOfSlot i) fun _ => True := by
  refine (slot i).bind fun v hv => ?_
  split
  · exact pure trivial
  · refine bind (modifyGet (Q := fun _ => True) fun h hobeys => ⟨hobeys.newCell hv, trivial⟩)
      fun c _ => ?_
    have hcell : (Value.cell c).Obeys (.onCode A) := nofun
    exact (setSlot i hcell).bind fun _ _ => pure trivial

theorem makeCell (i source : Nat) : Minds (.onCode A) (makeCell i source) fun _ => True := by
  unfold Action.makeCell
  split
  · exact cellOfSlot i
  · exact freeCell i
  · exact throw _

/-- A closure runs the code of its function. -/
theorem makeClosure (i count : Nat) :
    Minds (.onCode A) (makeClosure i count) (Value.Obeys (.onCode A)) := by
  refine (constant i).bind fun v hv => ?_
  split
  · rename_i f
    refine (popMany count).bind fun values _ =>
      bind (ask (Q := fun _ => True) (E := fun _ => True) fun _ _ => promises_anything _)
        fun cells _ => bind (modifyGet (Q := fun _ => True) fun h hobeys =>
          ⟨hobeys.newId.obeys, trivial⟩) fun id _ => pure ?_
    intro g cells' hg
    cases hg
    exact hv f #[] rfl
  · exact throw _

/-! ### Calls and returns -/

theorem enter (hA : Hereditary A) {f : Routine Value} (hf : A f) (cells : Array CellRef)
    {args : Array Value} (hargs : ∀ v ∈ args, v.Obeys (.onCode A)) :
    Minds (.onCode A) (enter s f cells args) fun _ => True := by
  intro m hm
  refine .enter (fun frame pool hbegins => ?_) fun _ _ => ⟨hm, rfl⟩
  refine ⟨⟨hm.stack, hA f hf, fun other hother => ?_, hm.heap, hm.globals⟩, rfl, trivial⟩
  rcases Array.mem_push.1 hother with hother | rfl
  · exact hm.frames other hother
  · refine ⟨fun v hv => ?_, by rw [hbegins.function]; exact hA f hf⟩
    rw [hbegins.locals] at hv
    rcases Array.mem_append.1 hv with hv | hv
    · exact hargs v hv
    · rw [Array.eq_of_mem_replicate hv]
      exact Value.obeys_of_plain rfl rfl

theorem callBuiltin (hhost : ObedientHost P s.host) (b : Builtin) {args : Array Value}
    (hargs : ∀ v ∈ args, v.Obeys P) : Minds P (callBuiltin s b args) fun _ => True := by
  intro m hm
  obtain ⟨hvalue, hheap⟩ := hhost.call b hargs (s := ⟨m.heap, m.world⟩) hm.heap
  refine .callBuiltin (fun kind message heap world hcall => ?_) fun v heap world hcall => ?_
  · rw [hcall] at hheap
    exact ⟨⟨hm.stack, hm.constants, hm.frames, hheap, hm.globals⟩, rfl⟩
  · rw [hcall] at hvalue hheap
    refine ⟨⟨fun w hw => ?_, hm.constants, hm.frames, hheap, hm.globals⟩, rfl, trivial⟩
    rcases Array.mem_push.1 hw with hw | rfl
    · exact hm.stack w hw
    · exact hvalue

theorem call (hA : Hereditary A) (hhost : ObedientHost (.onCode A) s.host) (count : Nat) :
    Minds (.onCode A) (call s count) fun _ => True := by
  refine (popMany _).bind fun values hvalues => ?_
  have hcallee : (values.getD 0 .nil).Obeys (.onCode A) := by
    rw [Array.getD_eq_getD_getElem?]
    cases hv : values[0]? with
    | none => exact Value.obeys_of_plain rfl rfl
    | some v => exact hvalues v (Array.mem_of_getElem? hv)
  have hargs : ∀ v ∈ values.extract 1 values.size, v.Obeys (.onCode A) :=
    fun v hv => hvalues v (mem_of_mem_extract hv)
  dsimp only
  cases hc : values.getD 0 .nil with
  | function f =>
    rw [hc] at hcallee
    exact enter hA (hcallee f #[] rfl) #[] hargs
  | closure id f cells =>
    rw [hc] at hcallee
    exact enter hA (hcallee f cells rfl) cells hargs
  | builtin id b => exact callBuiltin hhost b hargs
  | _ => exact throw _

theorem leave {v : Value} (hv : v.Obeys P) : Minds P (leave v) fun _ => True := by
  intro m hm
  unfold Ends Action.leave
  split
  · rename_i hok
    split at hok
    · cases hok
    · split at hok
      · cases hok
      · dsimp only at hok
        split at hok
        · cases hok
        · rename_i caller hcaller
          have hin : ∀ frame ∈ m.frames.pop, frame ∈ m.frames := fun _ h => mem_of_mem_pop h
          cases hok
          refine ⟨⟨fun w hw => ?_, ?_, fun other hother => hm.frames other (hin other hother),
            hm.heap, hm.globals⟩, rfl, trivial⟩
          · rcases Array.mem_push.1 hw with hw | rfl
            · exact hm.stack w (mem_of_mem_shrink hw)
            · exact hv
          · exact (hm.frames caller (hin caller (Array.mem_of_back? hcaller))).2
  · rename_i hfailed
    split at hfailed
    · cases hfailed
      exact ⟨hm, rfl⟩
    · split at hfailed
      · cases hfailed
        exact ⟨hm, rfl⟩
      · dsimp only at hfailed
        split at hfailed
        · cases hfailed
          exact ⟨hm, rfl⟩
        · cases hfailed

end Action.Minds

/-! ## Instructions -/

/-- The instruction binds a name of the session. -/
def Opcode.storesName : Opcode → Bool
  | .storeGlobal | .storeName => true
  | _ => false

section
variable {A : Routine Value → Prop} {s : Surroundings} {offset : Nat} {ins : Instruction}

open Ember.Action

theorem minds_jumpIf {P : Policy} (expected : Bool) :
    Minds P (jumpIf expected ins offset) fun _ => True := by
  refine Minds.pop.bind fun v _ => ?_
  refine Minds.bind (.ask (Q := fun _ => True) (E := fun _ => True) fun _ _ => promises_anything _)
    fun holds _ => ?_
  split
  · exact .jump _ _
  · exact .pure trivial

/-- An instruction that does not store to a name of the session leaves them all as they are. -/
theorem Action.execute_minds (hA : Hereditary A) (hhost : ObedientHost (.onCode A) s.host)
    (hstores : ins.op.storesName = false) :
    Minds (.onCode A) (execute s offset ins) fun _ => True := by
  obtain ⟨op, operands⟩ := ins
  cases op with
  | storeGlobal | storeName => cases hstores
  | nop | halt => exact .pure trivial
  | popTop => exact .bind .pop fun _ _ => .pure trivial
  | print => exact .bind .pop fun v _ => .print v
  | pushNil | pushTrue | pushFalse => exact .push (Value.obeys_of_plain rfl rfl)
  | loadConst => exact .bind (.constant _) fun v hv => .push hv
  | loadFast => exact .bind (.loadFast _) fun v hv => .push hv
  | storeFast => exact .bind .pop fun v hv => .storeFast _ hv
  | loadGlobal | loadName =>
    exact .bind (.name _) fun n _ => .bind (.loadGlobal n) fun v hv => .push hv
  | loadFree => exact .bind (.freeCell _) fun c _ => .bind (.readCell c) fun v hv => .push hv
  | storeFree => exact .bind .pop fun v hv => .bind (.freeCell _) fun c _ => .writeCell c hv
  | makeCell => exact .bind (.makeCell _ _) fun c _ => .push nofun
  | loadClosure => exact .bind (.makeClosure _ _) fun v hv => .push hv
  | buildList =>
    exact .bind (.popMany _) fun items hitems =>
      .bind (.onHeap (keeps_newList hitems (E := fun _ => True))) fun v hv => .push hv
  | buildMap =>
    refine .bind (.popMany _) fun parts hparts => .bind (.ask fun _ _ => entriesOf_promises
      (fun v hv => hparts v (Array.mem_toList_iff.1 hv)) fun e he =>
        absurd he (Array.not_mem_empty e)) fun entries hentries => ?_
    exact .bind (.onHeap (keeps_newMap hentries (E := fun _ => True))) fun v hv => .push hv
  | buildSet =>
    refine .bind (.popMany _) fun items _ => .bind (.ask fun _ _ => membersOf_promises _ _)
      fun members _ => ?_
    exact .bind (.onHeap (keeps_newSet members (E := fun _ => True))) fun v hv => .push hv
  | binarySubscr =>
    exact .bind .popTwo fun _ _ => .bind (.ask fun _ h => getItem_promises h _ _)
      fun v hv => .push hv
  | storeSubscr =>
    exact .bind .popTwo fun _ _ => .bind .pop fun v hv => .onHeap (setItem_keeps hv _ _)
  | deleteSubscr => exact .bind .popTwo fun _ _ => .onHeap (deleteItem_keeps _ _)
  | loadAttr =>
    exact .bind (.name _) fun n _ => .bind .pop fun object _ =>
      .bind (.ask fun _ h => getAttribute_promises h object n) fun v hv => .push hv
  | storeAttr =>
    exact .bind (.name _) fun n _ => .bind .pop fun object _ => .bind .pop fun v hv =>
      .onHeap (setAttribute_keeps hv object n)
  | binaryOp =>
    unfold execute
    dsimp only
    split
    · exact .throw _
    · exact .bind .popTwo fun _ _ => .bind (.onHeap (binary_keeps _ _ _)) fun v hv => .push hv
  | compareOp =>
    unfold execute
    dsimp only
    split
    · exact .throw _
    · exact .bind .popTwo fun _ _ => .bind (.ask fun h _ => comparison_promises h _ _ _)
        fun v hv => .push hv
  | unaryNegative =>
    exact .bind .pop fun v _ => .bind (.ask fun _ _ => negate_promises v) fun w hw => .push hw
  | unaryPositive =>
    exact .bind .pop fun v _ => .bind (.ask fun _ _ => affirm_promises v) fun w hw => .push hw
  | unaryInvert =>
    exact .bind .pop fun v _ => .bind (.ask fun _ _ => complement_promises v) fun w hw => .push hw
  | unaryNot =>
    exact .bind .pop fun v _ => .bind (.ask (Q := fun _ => True) (E := fun _ => True)
      fun _ _ => promises_anything _) fun holds _ => .push (Value.obeys_of_plain rfl rfl)
  | jumpForward | jumpBackward =>
    unfold execute
    exact .jump _ _
  | popJumpForwardIfTrue | popJumpBackwardIfTrue => exact minds_jumpIf true
  | popJumpForwardIfFalse | popJumpBackwardIfFalse => exact minds_jumpIf false
  | call => exact .call hA hhost _
  | returnValue =>
    unfold execute
    dsimp only
    split
    · exact .bind .pop fun v hv => .leave hv
    · exact .leave (Value.obeys_of_plain rfl rfl)

/-- An instruction that stores to a name rebinds that name, if it succeeds. -/
theorem Action.execute_stores {P : Policy} {m : Machine} (hm : m.Obeys P)
    (hstores : ins.op.storesName = true) :
    Ends (execute s offset ins) m (fun _ m' => m'.Obeys P ∧ ∃ n v,
      m.function.names[ins.operand 0]? = some n ∧ m'.globals = m.globals.set n v)
      fun _ m' => m'.Obeys P ∧ m'.globals = m.globals := by
  have hstore : Ends (do
      let n ← name (ins.operand 0)
      let v ← pop
      storeGlobal n v) m (fun _ m' => m'.Obeys P ∧ ∃ n v,
        m.function.names[ins.operand 0]? = some n ∧ m'.globals = m.globals.set n v)
      fun _ m' => m'.Obeys P ∧ m'.globals = m.globals := by
    have hname : Ends (name (ins.operand 0)) m
        (fun n m' => m' = m ∧ m.function.names[ins.operand 0]? = some n) fun _ m' => m' = m := by
      unfold Ends name
      cases hn : m.function.names[ins.operand 0]? with
      | none => rfl
      | some n => exact ⟨rfl, rfl⟩
    refine .bind (hname.mono (fun n m₀ h => ?_) fun _ m₀ h => ?_)
    · obtain ⟨rfl, hn⟩ := h
      refine .bind ((Minds.pop m₀ hm).mono (fun v m₁ h => ?_) fun _ _ h => h)
      obtain ⟨hm₁, hglobals, hv⟩ := h
      refine ⟨⟨hm₁.stack, hm₁.constants, hm₁.frames, hm₁.heap, hm₁.globals.set n hv⟩, n, v, hn, ?_⟩
      rw [← hglobals]
    · subst h
      exact ⟨hm, rfl⟩
  obtain ⟨op, operands⟩ := ins
  cases op with
  | storeGlobal | storeName => exact hstore
  | _ => cases hstores

/-- After a step, the names are bound as before, but for one to which the instruction that was next
stores. -/
def Machine.Rebinds (m : Machine) (g : Globals) : Prop :=
  g = m.globals ∨ ∃ ins n v, decode m.function.code m.ip = .ok ins ∧ ins.op.storesName = true ∧
    m.function.names[ins.operand 0]? = some n ∧ g = m.globals.set n v

/-- A step keeps within the policy, whether it succeeds or fails. -/
theorem Action.step_obeys {m : Machine} (hA : Hereditary A)
    (hhost : ObedientHost (.onCode A) s.host) (hm : m.Obeys (.onCode A)) :
    Ends (step s) m (fun _ m' => m'.Obeys (.onCode A) ∧ m.Rebinds m'.globals)
      fun _ m' => m'.Obeys (.onCode A) ∧ m.Rebinds m'.globals := by
  have hcounted : ({ m with steps := m.steps + 1 } : Machine).Obeys (.onCode A) :=
    ⟨hm.stack, hm.constants, hm.frames, hm.heap, hm.globals⟩
  refine .bind (.checkLimits ?_ fun _ _ => ⟨hcounted, .inl rfl⟩)
  cases hdecoded : decode m.function.code m.ip with
  | error e =>
    refine .bind ?_
    unfold Ends fetch
    dsimp only
    rw [hdecoded]
    exact ⟨hcounted, .inl rfl⟩
  | ok ins =>
    have hnext : ({ m with steps := m.steps + 1, ip := m.ip + ins.size } : Machine).Obeys
        (.onCode A) := ⟨hm.stack, hm.constants, hm.frames, hm.heap, hm.globals⟩
    refine .bind (.fetch hdecoded ?_)
    dsimp only
    split
    · exact .pure ⟨hnext, .inl rfl⟩
    · refine .bind ?_
      cases hstores : ins.op.storesName with
      | true =>
        refine (execute_stores hnext hstores).mono (fun _ m' h => ?_) fun _ m' h => ?_
        · obtain ⟨hm', n, v, hn, hglobals⟩ := h
          exact .pure ⟨hm', .inr ⟨ins, n, v, hdecoded, hstores, hn, hglobals⟩⟩
        · exact ⟨h.1, .inl h.2⟩
      | false =>
        exact (execute_minds hA hhost hstores _ hnext).mono
          (fun _ m' h => .pure ⟨h.1, .inl h.2.1⟩) fun _ m' h => ⟨h.1, .inl h.2⟩

end

end Ember
