import Ember.Proofs.Machine.Actions

/-! Instructions that make closures or change slots, cells and frames. For each there is one rule:
it says in which states the instruction can end, if the last of the frames is the one given. -/
namespace Ember
set_option autoImplicit false

theorem mem_of_mem_extract {α : Type} {a : Array α} {i j : Nat} {x : α} (h : x ∈ a.extract i j) :
    x ∈ a := by
  obtain ⟨k, hk, rfl⟩ := Array.mem_extract_iff_getElem.1 h
  exact Array.getElem_mem _

/-! ## The last frame -/

theorem exists_callers {frames : Array Frame} {frame : Frame} (h : frames.back? = some frame) :
    ∃ callers : Array Frame, frames = callers.push frame := by
  obtain ⟨hne, rfl⟩ := Array.back?_eq_some_iff.1 h
  exact ⟨_, rfl⟩

theorem modify_last (callers : Array Frame) (frame : Frame) (f : Frame → Frame) :
    (callers.push frame).modify ((callers.push frame).size - 1) f = callers.push (f frame) := by
  apply Array.ext_getElem?
  intro i
  rw [Array.getElem?_modify, Array.size_push, Nat.add_sub_cancel, Array.getElem?_push,
    Array.getElem?_push]
  by_cases hi : i = callers.size
  · subst hi
    simp
  · rw [if_neg (Ne.symm hi), if_neg hi, if_neg hi]

/-- The frame of a call that has just begun. -/
structure Frame.Begins (frame : Frame) (f : Routine Value) (cells : Array CellRef)
    (args : Array Value) (resume base : Nat) : Prop where
  function : frame.function = f
  cells : frame.cells = cells
  locals : frame.locals = args ++ Array.replicate (f.localCount - args.size) .nil
  resume : frame.resume = resume
  base : frame.base = base

namespace Action.Ends

variable {m : Machine} {s : Surroundings} {offset : Nat} {operands : List Nat}
  {callers : Array Frame} {frame : Frame} {st : Array Value}
  {Q : Unit → Machine → Prop} {E : Fault → Machine → Prop}

theorem setSlot {i : Nat} {v : Value} (hframes : m.frames = callers.push frame)
    (h : Q () { m with frames := callers.push (frame.setLocal i v) }) :
    Ends (setSlot i v) m Q E := by
  unfold Ends Action.setSlot
  dsimp only
  rw [hframes, modify_last]
  exact h

/-! ## Slots and cells -/

theorem loadFast {w : Value} (hframes : m.frames = callers.push frame)
    (hslot : frame.locals[Instruction.operand ⟨.loadFast, operands⟩ 0]? = some w)
    (hcell : ∀ c, w = .cell c → Q () { m with stack := m.stack.push (m.heap.cell c) })
    (hplain : (∀ c, w ≠ .cell c) → Q () { m with stack := m.stack.push w }) :
    Ends (execute s offset ⟨.loadFast, operands⟩) m Q E := by
  have hback : m.frames.back? = some frame := by rw [hframes, Array.back?_push]
  refine .bind (.bind (.slot hback hslot ?_))
  split
  · exact .readCell (.push (hcell _ rfl))
  · rename_i hne
    exact .pure (.push (hplain hne))

theorem loadFree {c : CellRef} (hframes : m.frames = callers.push frame)
    (hfree : frame.cells[Instruction.operand ⟨.loadFree, operands⟩ 0]? = some c)
    (h : Q () { m with stack := m.stack.push (m.heap.cell c) }) :
    Ends (execute s offset ⟨.loadFree, operands⟩) m Q E := by
  have hback : m.frames.back? = some frame := by rw [hframes, Array.back?_push]
  exact .bind (.freeCell hback hfree (.bind (.readCell (.push h))))

theorem storeFast {v w : Value} (hframes : m.frames = callers.push frame)
    (hstack : m.stack = st.push v)
    (hslot : frame.locals[Instruction.operand ⟨.storeFast, operands⟩ 0]? = some w)
    (hcell : ∀ c, w = .cell c → Q () { m with stack := st, heap := m.heap.setCell c v })
    (hplain : (∀ c, w ≠ .cell c) → Q () { m with
      stack := st
      frames := callers.push
        (frame.setLocal (Instruction.operand ⟨.storeFast, operands⟩ 0) v) }) :
    Ends (execute s offset ⟨.storeFast, operands⟩) m Q E := by
  have hback : m.frames.back? = some frame := by rw [hframes, Array.back?_push]
  refine .bind (.pop hstack (.bind (.slot hback hslot ?_)))
  split
  · exact hcell _ rfl
  · rename_i hne
    exact .setSlot hframes (hplain hne)

theorem storeFree {v : Value} {c : CellRef} (hframes : m.frames = callers.push frame)
    (hstack : m.stack = st.push v)
    (hfree : frame.cells[Instruction.operand ⟨.storeFree, operands⟩ 0]? = some c)
    (h : Q () { m with stack := st, heap := m.heap.setCell c v }) :
    Ends (execute s offset ⟨.storeFree, operands⟩) m Q E := by
  have hback : m.frames.back? = some frame := by rw [hframes, Array.back?_push]
  exact .bind (.pop hstack (.bind (.freeCell hback hfree h)))

/-- A slot that has no cell yet is moved to a new one. -/
theorem makeCell_slot {w : Value} (hframes : m.frames = callers.push frame)
    (hsource : Instruction.operand ⟨.makeCell, operands⟩ 1 = 0)
    (hslot : frame.locals[Instruction.operand ⟨.makeCell, operands⟩ 0]? = some w)
    (hcell : ∀ c, w = .cell c → Q () { m with stack := m.stack.push (.cell c) })
    (hplain : (∀ c, w ≠ .cell c) → Q () { m with
      stack := m.stack.push (.cell ⟨m.heap.cells.size⟩)
      heap := (m.heap.newCell w).2
      frames := callers.push (frame.setLocal (Instruction.operand ⟨.makeCell, operands⟩ 0)
        (.cell ⟨m.heap.cells.size⟩)) }) :
    Ends (execute s offset ⟨.makeCell, operands⟩) m Q E := by
  have hback : m.frames.back? = some frame := by rw [hframes, Array.back?_push]
  unfold execute
  dsimp only
  rw [hsource]
  refine .bind (.bind (.slot hback hslot ?_))
  split
  · exact .pure (.push (hcell _ rfl))
  · rename_i hne
    exact .bind (.modifyGet (.bind (.setSlot hframes (.pure (.push (hplain hne))))))

theorem makeCell_free {c : CellRef} (hframes : m.frames = callers.push frame)
    (hsource : Instruction.operand ⟨.makeCell, operands⟩ 1 = 1)
    (hfree : frame.cells[Instruction.operand ⟨.makeCell, operands⟩ 0]? = some c)
    (h : Q () { m with stack := m.stack.push (.cell c) }) :
    Ends (execute s offset ⟨.makeCell, operands⟩) m Q E := by
  have hback : m.frames.back? = some frame := by rw [hframes, Array.back?_push]
  unfold execute
  dsimp only
  rw [hsource]
  exact .bind (.freeCell hback hfree (.push h))

/-! ## Closures -/

theorem cellsOf_spec (values : List Value) (found : Array CellRef) :
    Promises (cellsOf values found)
      (fun cells => ∃ refs, values = refs.map .cell ∧ cells.toList = found.toList ++ refs)
      (fun fault => fault.isMalformed = false ∧
        ∀ refs : List CellRef, values ≠ refs.map .cell) := by
  fun_induction cellsOf values found with
  | case1 found => exact ⟨[], rfl, by simp⟩
  | case2 c rest found ih =>
    cases hr : cellsOf rest (found.push c) with
    | error e =>
      rw [hr] at ih
      refine ⟨ih.1, fun refs hrefs => ?_⟩
      cases refs with
      | nil => cases hrefs
      | cons c' refs => exact ih.2 refs (List.cons.inj hrefs).2
    | ok cells =>
      rw [hr] at ih
      obtain ⟨refs, rfl, hcells⟩ := ih
      refine ⟨c :: refs, rfl, ?_⟩
      rw [hcells]
      simp
  | case3 v rest found hne =>
    refine ⟨rfl, fun refs hrefs => ?_⟩
    cases refs with
    | nil => cases hrefs
    | cons c refs => exact hne c (List.cons.inj hrefs).1

theorem loadClosure {g : Routine Value} {args : Array Value}
    (hconstant : m.function.constants[Instruction.operand ⟨.loadClosure, operands⟩ 0]? =
      some (.function g))
    (hstack : m.stack = st ++ args)
    (hargs : args.size = Instruction.operand ⟨.loadClosure, operands⟩ 1)
    (h : ∀ cells : Array CellRef, args = cells.map .cell → Q () { m with
      stack := st.push (.closure m.heap.nextId g cells)
      heap := m.heap.newId.2 })
    (hE : ∀ fault : Fault, fault.isMalformed = false →
      (∀ cells : Array CellRef, args ≠ cells.map .cell) → E fault { m with stack := st }) :
    Ends (execute s offset ⟨.loadClosure, operands⟩) m Q E := by
  refine .bind (.bind (.constant hconstant (.bind (.popMany hstack hargs (.bind
    (.ask (cellsOf_spec _ _) (fun cells hcells => ?_) fun fault hfault => ?_))))))
  · obtain ⟨refs, hvalues, hrefs⟩ := hcells
    refine .bind (.modifyGet (.pure (.push (h cells ?_))))
    apply Array.toList_inj.1
    rw [hvalues, Array.toList_map, hrefs]
    rfl
  · refine hE fault hfault.1 fun cells hcells => hfault.2 cells.toList ?_
    rw [hcells, Array.toList_map]

/-! ## Calls -/

theorem enter {f : Routine Value} {cells : Array CellRef} {args : Array Value}
    (h : ∀ frame pool, frame.Begins f cells args m.ip m.stack.size →
      Q () { m with frames := m.frames.push frame, pool, function := f, ip := 0 })
    (hE : ∀ fault : Fault, fault.Ordinary → E fault m) : Ends (enter s f cells args) m Q E := by
  unfold Ends Action.enter
  by_cases harity : args.size ≠ f.arity
  · rw [if_pos harity]
    exact hE _ rfl
  · rw [if_neg harity]
    by_cases hdepth : s.settings.maxCallDepth ≤ m.frames.size
    · rw [if_pos hdepth]
      exact hE _ rfl
    · rw [if_neg hdepth]
      refine h _ _ ⟨rfl, rfl, ?_, rfl, rfl⟩
      show args ++ Array.replicate (max f.localCount args.size - args.size) .nil = _
      rw [show max f.localCount args.size - args.size = f.localCount - args.size by omega]

theorem callBuiltin {b : Builtin} {args : Array Value}
    (hE : ∀ kind message heap world,
      b.call s.host args ⟨m.heap, m.world⟩ = (.error kind message, ⟨heap, world⟩) →
      E (.raised kind message) { m with heap, world })
    (h : ∀ v heap world, b.call s.host args ⟨m.heap, m.world⟩ = (v, ⟨heap, world⟩) →
      Q () { m with heap, world, stack := m.stack.push v }) :
    Ends (callBuiltin s b args) m Q E := by
  unfold Ends Action.callBuiltin
  dsimp only
  rcases hcall : b.call s.host args ⟨m.heap, m.world⟩ with ⟨v, ⟨heap, world⟩⟩
  cases v with
  | error kind message => exact hE kind message heap world hcall
  | _ => exact h _ heap world hcall

theorem call {args : Array Value} (hstack : m.stack = st ++ args)
    (hargs : args.size = Instruction.operand ⟨.call, operands⟩ 0 + 1)
    (hfunction : ∀ f, args.getD 0 .nil = .function f →
      Ends (Action.enter s f #[] (args.extract 1 args.size)) { m with stack := st } Q E)
    (hclosure : ∀ id f cells, args.getD 0 .nil = .closure id f cells →
      Ends (Action.enter s f cells (args.extract 1 args.size)) { m with stack := st } Q E)
    (hbuiltin : ∀ id b, args.getD 0 .nil = .builtin id b →
      Ends (Action.callBuiltin s b (args.extract 1 args.size)) { m with stack := st } Q E)
    (hE : ∀ fault : Fault, fault.Ordinary → E fault { m with stack := st }) :
    Ends (execute s offset ⟨.call, operands⟩) m Q E := by
  refine .bind (.popMany hstack hargs ?_)
  dsimp only
  cases hcallee : args.getD 0 .nil with
  | function f => exact hfunction f hcallee
  | closure id f cells => exact hclosure id f cells hcallee
  | builtin id b => exact hbuiltin id b hcallee
  | _ => exact .throw (hE _ rfl)

theorem leave {caller : Frame} {v : Value} (hframes : m.frames = (callers.push caller).push frame)
    (h : Q () { m with
      stack := (m.stack.shrink frame.base).push v
      ip := frame.resume
      function := caller.function
      frames := callers.push caller
      pool := frame.release :: m.pool }) : Ends (leave v) m Q E := by
  unfold Ends Action.leave
  rw [if_neg (by simp [hframes]), hframes, Array.back?_push]
  dsimp only
  rw [Array.pop_push, Array.back?_push]
  exact h

theorem returnValue {caller : Frame} {args : Array Value}
    (hframes : m.frames = (callers.push caller).push frame) (hstack : m.stack = st ++ args)
    (hargs : args.size = Instruction.operand ⟨.returnValue, operands⟩ 0)
    (hflag : Instruction.operand ⟨.returnValue, operands⟩ 0 ≤ 1)
    (h : ∀ v, v = .nil ∨ v ∈ args → Q () { m with
      stack := (st.shrink frame.base).push v
      ip := frame.resume
      function := caller.function
      frames := callers.push caller
      pool := frame.release :: m.pool }) :
    Ends (execute s offset ⟨.returnValue, operands⟩) m Q E := by
  unfold execute
  dsimp only
  by_cases hone : Instruction.operand ⟨.returnValue, operands⟩ 0 = 1
  · rw [if_pos hone]
    obtain ⟨v, rfl⟩ := Array.size_eq_one_iff.1 (hargs.trans hone)
    have htop : m.stack = st.push v := by
      rw [hstack]
      simp
    exact .bind (.pop htop (.leave hframes (h v (.inr (by simp)))))
  · rw [if_neg hone]
    rw [Array.size_eq_zero_iff.1 (show args.size = 0 by omega), Array.append_empty] at hstack
    refine .leave hframes ?_
    rw [hstack]
    exact h .nil (.inl rfl)

end Action.Ends

end Ember
