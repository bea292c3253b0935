import Ember.Proofs.Machine.Runs
import Ember.Proofs.Verify.Soundness

/-! Calls and their returns. A step goes on in the active call, begins a call in it or returns from
it; accepted code never reaches below the base of its frame. So while a call runs, the frames of its
callers and what lies below its base stay as they are, and when it returns, the caller goes on where
it was, with the value in the place of the function and its arguments. -/
namespace Ember
set_option autoImplicit false

/-! ## One step -/

/-- The instruction returns the value: nil, or what is on top of the stack. -/
def Instruction.Gives (ins : Instruction) (stack : Array Value) (v : Value) : Prop :=
  ins.op = .returnValue ∧
    ((ins.operand 0 = 0 ∧ v = .nil) ∨ (ins.operand 0 = 1 ∧ stack.back? = some v))

/-- What a step that executes the instruction at an offset does to the frames and the stack, and
where it leads. -/
inductive Machine.Proceeds (offset : Nat) (ins : Instruction) (m m' : Machine) : Prop
  | stays {callers : Array Frame} {frame frame' : Frame} {st taken pushed : Array Value}
      (frames : m.frames = callers.push frame) (frames' : m'.frames = callers.push frame')
      (resume : frame'.resume = frame.resume) (base : frame'.base = frame.base)
      (above : frame.base ≤ st.size) (stack : m.stack = st ++ taken)
      (stack' : m'.stack = st ++ pushed)
      (ip : (ins.fallsThrough = true ∧ m'.ip = offset + ins.size) ∨
        ins.target? offset = some m'.ip)
  | enters {callers : Array Frame} {frame callee : Frame} {taken : Array Value}
      (frames : m.frames = callers.push frame) (frames' : m'.frames = m.frames.push callee)
      (falls : ins.fallsThrough = true) (resume : callee.resume = offset + ins.size)
      (base : callee.base = m'.stack.size) (above : frame.base ≤ m'.stack.size)
      (stack : m.stack = m'.stack ++ taken)
  | leaves {callers : Array Frame} {caller frame : Frame} {v : Value}
      (frames : m.frames = (callers.push caller).push frame)
      (frames' : m'.frames = callers.push caller) (gives : ins.Gives m.stack v)
      (above : frame.base ≤ m.stack.size) (stack' : m'.stack = (m.stack.take frame.base).push v)
      (ip : m'.ip = frame.resume) (function : m'.function = caller.function)

theorem take_append {st more : Array Value} {n : Nat} (h : n ≤ st.size) :
    (st ++ more).take n = st.take n := by
  show (st ++ more).extract 0 n = st.extract 0 n
  rw [Array.extract_append, Nat.sub_eq_zero_of_le h, Array.extract_zero, Array.append_empty]

namespace Machine.Executes

variable {main : Routine Value} {range : CodeRange} {m m' : Machine} {frame : Frame}
  {callers : Array Frame} {offset i : Nat} {ins : Instruction} {operands : List Nat}
  {st args : Array Value} {v : Value} {s : Surroundings}

/-- The frame stays as it is. -/
theorem stays (h : m.Executes main range frame callers offset ins st args)
    (hframes : m'.frames = m.frames) {pushed : Array Value} (hstack : m'.stack = st ++ pushed)
    (hip : (ins.fallsThrough = true ∧ m'.ip = m.ip) ∨ ins.target? offset = some m'.ip) :
    m.Proceeds offset ins m' :=
  .stays h.frames (hframes.trans h.frames) rfl rfl h.base_le h.stack hstack (h.ip ▸ hip)

/-- A slot of the frame is changed. -/
theorem stays_setLocal (h : m.Executes main range frame callers offset ins st args)
    (hframes : m'.frames = callers.push (frame.setLocal i v)) {pushed : Array Value}
    (hstack : m'.stack = st ++ pushed) (hip : ins.fallsThrough = true ∧ m'.ip = m.ip) :
    m.Proceeds offset ins m' :=
  .stays h.frames hframes rfl rfl h.base_le h.stack hstack (.inl (h.ip ▸ hip))

theorem proceeds_quiet (h : m.Executes main range frame callers offset ins st args)
    (hquiet : ins.op.isQuiet = true) :
    Action.Ends (Action.execute s offset ins) m (fun _ => m.Proceeds offset ins)
      fun _ _ => True := by
  have hends := execute_quiet s h.serves hquiet h.stack h.taken h.above
    fun hop v hv => h.constant_obeys hop hv
  refine hends.mono (fun _ m' hfollows => ?_) fun _ _ _ => trivial
  obtain ⟨hundisturbed, ⟨pushed, hstack, -⟩, hip⟩ := hfollows
  exact h.stays hundisturbed.frames hstack hip

theorem proceeds_storeFast
    (h : m.Executes main range frame callers offset ⟨.storeFast, operands⟩ st args) :
    Action.Ends (Action.execute s offset ⟨.storeFast, operands⟩) m
      (fun _ => m.Proceeds offset ⟨.storeFast, operands⟩) fun _ _ => True := by
  obtain ⟨v, -, hstack⟩ : ∃ v ∈ args, m.stack = st.push v := h.stack ▸ append_one h.taken
  have hslot := Array.getElem?_eq_getElem
    (Nat.lt_of_lt_of_le (lt_of_check h.passes.operands) h.placed.slots)
  refine .storeFast h.frames hstack hslot (fun c _ => ?_) fun _ => ?_
  · exact h.stays rfl (Array.append_empty).symm (.inl ⟨rfl, rfl⟩)
  · exact h.stays_setLocal rfl (Array.append_empty).symm ⟨rfl, rfl⟩

theorem proceeds_storeFree
    (h : m.Executes main range frame callers offset ⟨.storeFree, operands⟩ st args) :
    Action.Ends (Action.execute s offset ⟨.storeFree, operands⟩) m
      (fun _ => m.Proceeds offset ⟨.storeFree, operands⟩) fun _ _ => True := by
  obtain ⟨v, -, hstack⟩ : ∃ v ∈ args, m.stack = st.push v := h.stack ▸ append_one h.taken
  obtain ⟨c, hc⟩ := h.freeCell nofun (lt_of_check h.passes.operands)
  exact .storeFree h.frames hstack hc
    (h.stays rfl (Array.append_empty).symm (.inl ⟨rfl, rfl⟩))

theorem proceeds_makeCell
    (h : m.Executes main range frame callers offset ⟨.makeCell, operands⟩ st args) :
    Action.Ends (Action.execute s offset ⟨.makeCell, operands⟩) m
      (fun _ => m.Proceeds offset ⟨.makeCell, operands⟩) fun _ _ => True := by
  have hpush : ∀ v, m.stack.push v = st ++ #[v] := by
    intro v
    rw [h.stack, Array.size_eq_zero_iff.1 h.taken, Array.append_empty]
    rfl
  have hoperands := h.passes.operands
  unfold checkOperands at hoperands
  dsimp only at hoperands
  split at hoperands
  · rename_i hsource
    have hslot := Array.getElem?_eq_getElem
      (Nat.lt_of_lt_of_le (lt_of_check hoperands) h.placed.slots)
    refine .makeCell_slot h.frames hsource hslot (fun c _ => ?_) fun _ => ?_
    · exact h.stays rfl (hpush _) (.inl ⟨rfl, rfl⟩)
    · exact h.stays_setLocal rfl (hpush _) ⟨rfl, rfl⟩
  · rename_i hsource
    obtain ⟨c, hc⟩ := h.freeCell nofun (lt_of_check hoperands)
    exact .makeCell_free h.frames hsource hc (h.stays rfl (hpush _) (.inl ⟨rfl, rfl⟩))
  · cases hoperands

theorem proceeds_loadClosure
    (h : m.Executes main range frame callers offset ⟨.loadClosure, operands⟩ st args) :
    Action.Ends (Action.execute s offset ⟨.loadClosure, operands⟩) m
      (fun _ => m.Proceeds offset ⟨.loadClosure, operands⟩) fun _ _ => True := by
  have hoperands := h.serves.operands
  unfold checkOperands at hoperands
  dsimp only at hoperands
  split at hoperands
  · cases hoperands
  · rename_i g hg
    exact .loadClosure hg h.stack h.taken
      (fun cells _ => h.stays rfl (Array.push_eq_append) (.inl ⟨rfl, rfl⟩)) fun _ _ _ => trivial
  · cases hoperands

theorem proceeds_call
    (h : m.Executes main range frame callers offset ⟨.call, operands⟩ st args) :
    Action.Ends (Action.execute s offset ⟨.call, operands⟩) m
      (fun _ => m.Proceeds offset ⟨.call, operands⟩) fun _ _ => True := by
  have henter : ∀ (f : Routine Value) (cells : Array CellRef),
      Action.Ends (Action.enter s f cells (args.extract 1 args.size)) { m with stack := st }
        (fun _ => m.Proceeds offset ⟨.call, operands⟩) fun _ _ => True := by
    intro f cells
    refine .enter (fun callee pool hbegins => ?_) fun _ _ => trivial
    exact .enters h.frames rfl rfl (hbegins.resume.trans h.ip) hbegins.base h.base_le h.stack
  refine .call h.stack h.taken (fun f _ => henter f #[]) (fun _ f cells _ => henter f cells)
    (fun _ b _ => ?_) fun _ _ => trivial
  exact .callBuiltin (fun _ _ _ _ _ => trivial) fun v heap world _ =>
    h.stays rfl (Array.push_eq_append) (.inl ⟨rfl, rfl⟩)

/-- The chunk of the session never returns, so somebody waits for the value. -/
theorem exists_caller (hmain : main.scope.kind = .topLevel)
    (h : m.Executes main range frame callers offset ⟨.returnValue, operands⟩ st args) :
    ∃ (rest : Array Frame) (caller : Frame), callers = rest.push caller := by
  have hkind := kind_of_place h.passes.place nofun
  have hawaits := h.awaits
  refine Array.exists_push_of_size_pos (Nat.pos_of_ne_zero fun hzero => ?_)
  rw [Array.size_eq_zero_iff.1 hzero] at hawaits
  rw [show frame.function = main from hawaits, hmain] at hkind
  cases hkind

theorem proceeds_returnValue (hmain : main.scope.kind = .topLevel)
    (h : m.Executes main range frame callers offset ⟨.returnValue, operands⟩ st args) :
    Action.Ends (Action.execute s offset ⟨.returnValue, operands⟩) m
      (fun _ => m.Proceeds offset ⟨.returnValue, operands⟩) fun _ _ => True := by
  obtain ⟨rest, caller, hcallers⟩ := h.exists_caller hmain
  have hframes : m.frames = (rest.push caller).push frame := by rw [h.frames, hcallers]
  have hbase := h.base_le
  have habove : frame.base ≤ m.stack.size := h.placed.base
  have hflag := returnFlag_le_one h.passes.operands
  have htaken : args.size = Instruction.operand ⟨.returnValue, operands⟩ 0 := h.taken
  unfold Action.execute
  dsimp only
  by_cases hone : Instruction.operand ⟨.returnValue, operands⟩ 0 = 1
  · rw [if_pos hone]
    obtain ⟨v, -, hstack⟩ : ∃ v ∈ args, m.stack = st.push v :=
      h.stack ▸ append_one (htaken.trans hone)
    have hgives : Instruction.Gives ⟨.returnValue, operands⟩ m.stack v :=
      ⟨rfl, .inr ⟨hone, by rw [hstack, Array.back?_push]⟩⟩
    refine .bind (.pop hstack (.leave hframes (.leaves hframes rfl hgives habove ?_ rfl rfl)))
    -- the value lies above the base, too
    dsimp only
    rw [Array.shrink_eq_take, hstack]
    exact congrArg (Array.push · v) (Array.extract_push_of_le hbase).symm
  · rw [if_neg hone]
    refine .leave hframes (.leaves hframes rfl ⟨rfl, .inl ⟨by omega, rfl⟩⟩ habove ?_ rfl rfl)
    dsimp only
    rw [Array.shrink_eq_take]

/-- An instruction that the verifier has seen goes on in its call, begins another or returns. -/
theorem proceeds (hmain : main.scope.kind = .topLevel)
    (h : m.Executes main range frame callers offset ins st args) (hhalt : ins.op ≠ .halt) :
    Action.Ends (Action.execute s offset ins) m (fun _ => m.Proceeds offset ins)
      fun _ _ => True := by
  by_cases hquiet : ins.op.isQuiet = true
  · exact h.proceeds_quiet hquiet
  · obtain ⟨op, operands⟩ := ins
    cases op with
    | storeFast => exact h.proceeds_storeFast
    | storeFree => exact h.proceeds_storeFree
    | makeCell => exact h.proceeds_makeCell
    | loadClosure => exact h.proceeds_loadClosure
    | call => exact h.proceeds_call
    | returnValue => exact h.proceeds_returnValue hmain
    | halt => exact absurd rfl hhalt
    | _ => exact absurd rfl hquiet

end Machine.Executes

/-! ### Steps that succeed -/

/-- The fault tells of a limit on the steps or on the stack. -/
def Fault.isLimit : Fault → Bool
  | .stepLimit _ | .stackLimit _ => true
  | _ => false

section
variable {α β : Type} {m m' : Machine} {su : Surroundings}

theorem Action.bind_eq_ok {x : Action α} {k : α → Action β} {b : β} (h : (x >>= k) m = .ok b m') :
    ∃ a m₁, x m = .ok a m₁ ∧ k a m₁ = .ok b m' := by
  change EStateM.bind x k m = .ok b m' at h
  unfold EStateM.bind at h
  split at h
  · rename_i a m₁ hx
    exact ⟨a, m₁, hx, h⟩
  · cases h

/-- A step is counted, and then either no limit has been passed or one has. -/
theorem Action.checkLimits_cases (settings : Settings) (m : Machine) :
    checkLimits settings m = .ok () { m with steps := m.steps + 1 } ∨
      ∃ fault, fault.isLimit = true ∧
        checkLimits settings m = .error fault { m with steps := m.steps + 1 } := by
  have hstack : checkLimits.checkStack settings { m with steps := m.steps + 1 } =
        .ok () { m with steps := m.steps + 1 } ∨
      ∃ fault, fault.isLimit = true ∧
        checkLimits.checkStack settings { m with steps := m.steps + 1 } =
          .error fault { m with steps := m.steps + 1 } := by
    unfold checkLimits.checkStack
    split
    · exact .inr ⟨_, rfl, rfl⟩
    · exact .inl rfl
  unfold checkLimits
  dsimp only
  split
  · split
    · exact .inr ⟨_, rfl, rfl⟩
    · exact hstack
  · exact hstack

theorem Action.fetch_eq_ok {found : Nat × Instruction} (h : fetch m = .ok found m') :
    decode m.function.code m.ip = .ok found.2 ∧ found.1 = m.ip ∧
      m' = { m with ip := m.ip + found.2.size } := by
  unfold fetch at h
  split at h
  · cases h
  · rename_i ins hdecoded
    cases h
    exact ⟨hdecoded, rfl, rfl⟩

/-- A step that succeeds halts, or executes the instruction that is next. -/
theorem Action.step_eq_ok {halted : Bool} (h : step su m = .ok halted m') :
    ∃ ins, decode m.function.code m.ip = .ok ins ∧
      ((halted = true ∧ ins.op = .halt ∧
        m' = { m with steps := m.steps + 1, ip := m.ip + ins.size }) ∨
      (halted = false ∧ ins.op ≠ .halt ∧
        execute su m.ip ins { m with steps := m.steps + 1, ip := m.ip + ins.size } =
          .ok () m')) := by
  obtain ⟨⟨⟩, m₁, hlimits, h⟩ := bind_eq_ok h
  obtain ⟨⟨offset, ins⟩, m₂, hfetch, h⟩ := bind_eq_ok h
  obtain rfl : m₁ = { m with steps := m.steps + 1 } := by
    rcases checkLimits_cases su.settings m with hok | ⟨fault, -, herror⟩
    · cases hlimits.symm.trans hok
      rfl
    · cases hlimits.symm.trans herror
  obtain ⟨hdecoded, hoffset, rfl⟩ := fetch_eq_ok hfetch
  dsimp only at hdecoded hoffset h
  subst hoffset
  refine ⟨ins, hdecoded, ?_⟩
  split at h
  · rename_i hhalt
    cases h
    exact .inl ⟨rfl, hhalt, rfl⟩
  · rename_i hhalt
    obtain ⟨⟨⟩, m₃, hexecute, h⟩ := bind_eq_ok h
    cases h
    exact .inr ⟨rfl, hhalt, hexecute⟩

end

theorem Machine.Foreseen.proceeds {main : Routine Value} {range : CodeRange} {m m' : Machine}
    {su : Surroundings} (hmain : main.scope.kind = .topLevel) (h : m.Foreseen main range)
    (hstep : Action.step su m = .ok false m') :
    ∃ ins, decode m.function.code m.ip = .ok ins ∧ m.Proceeds m.ip ins m' := by
  obtain ⟨⟨frame, callers, hframes, hfunction, hplaced, hawaits⟩, hstack, hheap, hglobals⟩ := h
  obtain ⟨ins, hpasses⟩ := exists_passes hplaced.accepted hplaced.recorded
  obtain ⟨ins', hdecoded, ⟨hhalted, -⟩ | ⟨-, hhalt, hexecute⟩⟩ := Action.step_eq_ok hstep
  · cases hhalted
  have hdecoded' : decode m.function.code m.ip = .ok ins := hfunction ▸ hpasses.decoded
  cases hdecoded.symm.trans hdecoded'
  have hpops := hpasses.pops
  have hsplit : m.stack = m.stack.extract 0 (m.stack.size - ins.pops) ++
      m.stack.extract (m.stack.size - ins.pops) m.stack.size := by
    rw [Array.extract_append_extract]
    simp
  have hexecutes : Machine.Executes main range
      { m with steps := m.steps + 1, ip := m.ip + ins.size } frame callers m.ip ins
      (m.stack.extract 0 (m.stack.size - ins.pops))
      (m.stack.extract (m.stack.size - ins.pops) m.stack.size) := by
    refine ⟨hframes, hfunction, rfl, hpasses, hplaced, hawaits, hsplit, ?_, fun v hv => ?_,
      fun v hv => ?_, hheap, hglobals⟩
    · rw [Array.size_extract]
      omega
    · exact hstack v (mem_of_mem_extract hv)
    · exact hstack v (mem_of_mem_extract hv)
  have hends := hexecutes.proceeds (s := su) hmain hhalt
  unfold Action.Ends at hends
  rw [hexecute] at hends
  refine ⟨ins, hdecoded, ?_⟩
  cases hends with
  | stays h₁ h₂ h₃ h₄ h₅ h₆ h₇ h₈ => exact .stays h₁ h₂ h₃ h₄ h₅ h₆ h₇ h₈
  | enters h₁ h₂ h₃ h₄ h₅ h₆ h₇ => exact .enters h₁ h₂ h₃ h₄ h₅ h₆ h₇
  | leaves h₁ h₂ h₃ h₄ h₅ h₆ h₇ => exact .leaves h₁ h₂ h₃ h₄ h₅ h₆ h₇

/-! ## The beginning of a call -/

/-- The function that a call of the value runs, and the cells that it has captured. -/
def Value.callee? : Value → Option (Routine Value × Array CellRef)
  | .function f => some (f, #[])
  | .closure _ f cells => some (f, cells)
  | _ => none

/-- The machine is about to call a function or closure that lies on the stack, with as many
arguments as it has parameters, and one more call may be active. -/
structure Machine.Calls (su : Surroundings) (m : Machine) (f : Routine Value)
    (cells : Array CellRef) (st args : Array Value) : Prop where
  decoded : decode m.function.code m.ip = .ok ⟨.call, [args.size]⟩
  stack : ∃ v : Value, v.callee? = some (f, cells) ∧ m.stack = st.push v ++ args
  arity : args.size = f.arity
  depth : m.frames.size < su.settings.maxCallDepth

/-- A call has begun, with the arguments in the first slots of its frame. -/
structure Machine.Entered (m : Machine) (f : Routine Value) (cells : Array CellRef)
    (st args : Array Value) (n : Machine) : Prop where
  frames : ∃ frame : Frame, frame.Begins f cells args (m.ip + 2) st.size ∧
    n.frames = m.frames.push frame
  stack : n.stack = st
  ip : n.ip = 0
  function : n.function = f

section
variable {m n : Machine} {su : Surroundings} {f : Routine Value} {cells : Array CellRef}
  {st args : Array Value}

theorem Action.Ends.enter_begins {Q : Unit → Machine → Prop} {E : Fault → Machine → Prop}
    (harity : args.size = f.arity) (hdepth : m.frames.size < su.settings.maxCallDepth)
    (h : ∀ frame pool, frame.Begins f cells args m.ip m.stack.size →
      Q () { m with frames := m.frames.push frame, pool, function := f, ip := 0 }) :
    Action.Ends (Action.enter su f cells args) m Q E := by
  unfold Action.Ends Action.enter
  rw [if_neg (not_not_intro harity), if_neg (Nat.not_le_of_lt hdepth)]
  refine h _ _ ⟨rfl, rfl, ?_, rfl, rfl⟩
  show args ++ Array.replicate (max f.localCount args.size - args.size) .nil = _
  rw [show max f.localCount args.size - args.size = f.localCount - args.size by omega]

/-- The call begins, unless a limit on the steps or on the stack has been passed. -/
theorem Machine.Calls.enters (h : m.Calls su f cells st args) :
    Action.Ends (Action.step su) m
      (fun halted n => halted = false ∧ m.Entered f cells st args n)
      fun fault _ => fault.isLimit = true := by
  obtain ⟨hdecoded, ⟨v, hcallee, hstack⟩, harity, hdepth⟩ := h
  have hbegins : Action.Ends (Action.enter su f cells args)
      { m with steps := m.steps + 1, ip := m.ip + 2, stack := st }
      (fun _ => m.Entered f cells st args) fun fault _ => fault.isLimit = true :=
    .enter_begins harity hdepth fun frame pool hframe => ⟨⟨frame, hframe, rfl⟩, rfl, rfl, rfl⟩
  have hlimits : Action.Ends (Action.checkLimits su.settings) m
      (fun _ m' => m' = { m with steps := m.steps + 1 }) fun fault _ => fault.isLimit = true := by
    unfold Action.Ends
    rcases Action.checkLimits_cases su.settings m with hok | ⟨fault, hlimit, herror⟩
    · rw [hok]
    · rw [herror]
      exact hlimit
  refine .bind (hlimits.mono (fun _ m' hm' => ?_) fun _ _ hlimit => hlimit)
  subst hm'
  refine .bind (.fetch hdecoded ?_)
  dsimp only
  rw [if_neg nofun]
  have hsplit : m.stack = st ++ (#[v] ++ args) := by
    rw [hstack, Array.push_eq_append, Array.append_assoc]
  have htaken : (#[v] ++ args).size = args.size + 1 := by
    rw [Array.size_append, Array.size_singleton, Nat.add_comm]
  have hfirst : (#[v] ++ args).getD 0 .nil = v := by
    rw [Array.getD_eq_getD_getElem?, Array.getElem?_append_left (by simp)]
    rfl
  have hgiven : (#[v] ++ args).extract 1 (#[v] ++ args).size = args := by
    simp [Array.extract_append]
  have hcall : Action.Ends (Action.call su args.size)
      { m with steps := m.steps + 1, ip := m.ip + 2 } (fun _ => m.Entered f cells st args)
      fun fault _ => fault.isLimit = true := by
    refine .bind (.popMany hsplit htaken ?_)
    dsimp only
    rw [hfirst, hgiven]
    unfold Value.callee? at hcallee
    split at hcallee
    · cases hcallee
      exact hbegins
    · cases hcallee
      exact hbegins
    · cases hcallee
  exact .bind (hcall.mono (fun _ n hn => .pure ⟨rfl, hn⟩) fun _ _ hlimit => hlimit)

end

/-! ## While a call runs -/

/-- The frames while a call runs: those of its callers, its own, and those of the calls in it. -/
inductive Within (callers : Array Frame) (resume base : Nat) : Array Frame → Prop
  | called {frame : Frame} (hresume : frame.resume = resume) (hbase : frame.base = base) :
      Within callers resume base (callers.push frame)
  | deeper {frames : Array Frame} {frame : Frame} (h : Within callers resume base frames)
      (hbase : base ≤ frame.base) : Within callers resume base (frames.push frame)

namespace Within

variable {callers frames : Array Frame} {frame frame' : Frame} {resume base : Nat}

theorem cases_push (h : Within callers resume base (frames.push frame)) :
    (frames = callers ∧ frame.resume = resume ∧ frame.base = base) ∨
      (Within callers resume base frames ∧ base ≤ frame.base) := by
  generalize hall : frames.push frame = all at h
  cases h with
  | called hresume hbase =>
    obtain ⟨rfl, rfl⟩ := Array.push_eq_push.1 hall
    exact .inl ⟨rfl, hresume, hbase⟩
  | deeper h hbase =>
    obtain ⟨rfl, rfl⟩ := Array.push_eq_push.1 hall
    exact .inr ⟨h, hbase⟩

theorem base_le (h : Within callers resume base (frames.push frame)) : base ≤ frame.base := by
  rcases h.cases_push with ⟨-, -, hbase⟩ | ⟨-, hbase⟩
  · exact Nat.le_of_eq hbase.symm
  · exact hbase

theorem update (h : Within callers resume base (frames.push frame))
    (hresume : frame'.resume = frame.resume) (hbase : frame'.base = frame.base) :
    Within callers resume base (frames.push frame') := by
  rcases h.cases_push with ⟨rfl, hresume', hbase'⟩ | ⟨h, hle⟩
  · exact .called (hresume.trans hresume') (hbase.trans hbase')
  · exact .deeper h (hbase ▸ hle)

theorem size_lt (h : Within callers resume base frames) : callers.size < frames.size := by
  induction h with
  | called => simp
  | deeper h _ ih =>
    rw [Array.size_push]
    omega

/-- The callers stay as they are. -/
theorem take_eq (h : Within callers resume base frames) : frames.take callers.size = callers := by
  induction h with
  | called => exact (Array.extract_push_of_le (Nat.le_refl _)).trans Array.extract_size
  | deeper h _ ih => exact (Array.extract_push_of_le (Nat.le_of_lt h.size_lt)).trans ih

end Within

/-- The machine `n` runs a call that `m` has begun, or one in it. -/
structure Machine.During (m : Machine) (resume : Nat) (st : Array Value) (n : Machine) : Prop where
  frames : Within m.frames resume st.size n.frames
  stack : n.stack.take st.size = st

/-- The caller goes on with the value of the call. -/
structure Machine.Resumed (m : Machine) (resume : Nat) (st : Array Value) (v : Value)
    (n : Machine) : Prop where
  stack : n.stack = st.push v
  ip : n.ip = resume
  function : n.function = m.function
  frames : n.frames = m.frames

section
variable {m n n' : Machine} {resume offset : Nat} {st : Array Value} {ins : Instruction}
  {main : Routine Value} {range : CodeRange} {su : Surroundings}

theorem Machine.Entered.during {f : Routine Value} {cells : Array CellRef} {args : Array Value}
    (h : m.Entered f cells st args n) : m.During (m.ip + 2) st n := by
  obtain ⟨⟨frame, hbegins, hframes⟩, hstack, -, -⟩ := h
  refine ⟨?_, ?_⟩
  · rw [hframes]
    exact .called hbegins.resume hbegins.base
  · rw [hstack]
    exact Array.extract_size

/-- A step goes on in the call, or returns from it. -/
theorem Machine.During.step (hactive : m.frames.back?.map Frame.function = some m.function)
    (h : m.During resume st n) (hproceeds : n.Proceeds offset ins n') :
    m.During resume st n' ∨ ∃ v, ins.Gives n.stack v ∧ m.Resumed resume st v n' := by
  obtain ⟨hwithin, hstack⟩ := h
  cases hproceeds with
  | stays hframes hframes' hresume hbase habove hbefore hafter =>
    rw [hframes] at hwithin
    have hle := Nat.le_trans hwithin.base_le habove
    refine .inl ⟨?_, ?_⟩
    · rw [hframes']
      exact hwithin.update hresume hbase
    · rw [hafter, take_append hle, ← take_append hle, ← hbefore, hstack]
  | enters hframes hframes' _ _ hbase habove hbefore =>
    have hle : st.size ≤ n'.stack.size := by
      rw [hframes] at hwithin
      exact Nat.le_trans hwithin.base_le habove
    refine .inl ⟨?_, ?_⟩
    · rw [hframes']
      exact .deeper hwithin (hbase ▸ hle)
    · rw [← take_append hle, ← hbefore, hstack]
  | leaves hframes hframes' hgives habove hafter hip hfunction =>
    rename_i callers caller frame v
    rw [hframes] at hwithin
    rcases hwithin.cases_push with ⟨hcallers, hresume, hbase⟩ | ⟨hwithin, hle⟩
    · refine .inr ⟨v, hgives, ?_, hip.trans hresume, ?_, hframes'.trans hcallers⟩
      · rw [hafter, hbase, hstack]
      · rw [← hcallers, Array.back?_push] at hactive
        exact hfunction.trans (Option.some.inj hactive)
    · -- the call that returns is one in the call, and what it cuts off lies above
      have hsize : st.size ≤ (n.stack.take frame.base).size := by
        rw [Array.size_extract]
        omega
      have hcut : (n.stack.take frame.base).take st.size = n.stack.take st.size := by
        show (n.stack.extract 0 frame.base).extract 0 st.size = n.stack.extract 0 st.size
        rw [Array.extract_extract, Nat.zero_add, Nat.zero_add, Nat.min_eq_left hle]
      refine .inl ⟨hframes' ▸ hwithin, ?_⟩
      rw [hafter, show ((n.stack.take frame.base).push v).take st.size = _ from
        Array.extract_push_of_le hsize]
      exact hcut.trans hstack

/-- A call that has not returned is still running. -/
theorem Machine.During.run (hmain : main.scope.kind = .topLevel) (hhost : SoundHost su.host)
    (hactive : m.frames.back?.map Frame.function = some m.function)
    (hforeseen : n.Foreseen main range) (h : m.During resume st n) {k : Nat}
    (hrun : n.run su k = .running n')
    (hdeeper : ∀ j x, j ≤ k → n.run su j = .running x → m.frames.size < x.frames.size) :
    n'.Foreseen main range ∧ m.During resume st n' := by
  induction k generalizing n with
  | zero =>
    cases hrun
    exact ⟨hforeseen, h⟩
  | succ k ih =>
    obtain ⟨n₁, hstep, hrun⟩ := Machine.run_succ_eq_running hrun
    have hnext := hforeseen.step hmain hhost
    unfold Action.Ends at hnext
    rw [hstep] at hnext
    obtain ⟨ins, -, hproceeds⟩ := hforeseen.proceeds hmain hstep
    rcases h.step hactive hproceeds with hduring | ⟨v, -, hresumed⟩
    · refine ih (hnext rfl) hduring hrun fun j x hj hx => ?_
      exact hdeeper (j + 1) x (Nat.succ_le_succ hj) ((Machine.run_succ hstep j).trans hx)
    · have hlt := hdeeper 1 n₁ (by omega) (Machine.run_succ hstep 0)
      rw [hresumed.frames] at hlt
      exact absurd hlt (Nat.lt_irrefl _)

end

/-! ## The end of a call -/

theorem Machine.run_add {su : Surroundings} {m n : Machine} {k : Nat}
    (h : m.run su k = .running n) (j : Nat) : m.run su (k + j) = n.run su j := by
  induction k generalizing m with
  | zero =>
    cases h
    rw [Nat.zero_add]
  | succ k ih =>
    obtain ⟨m₁, hstep, h⟩ := Machine.run_succ_eq_running h
    rw [Nat.add_right_comm, Machine.run_succ hstep]
    exact ih h

/-- The call that `m` begins runs for `k` steps, up to `last`, and the next step pops its frame. -/
structure Machine.Spans (su : Surroundings) (m : Machine) (k : Nat) (last after : Machine) :
    Prop where
  reached : m.run su k = .running last
  active : ∀ j n, 0 < j → j ≤ k → m.run su j = .running n → m.frames.size < n.frames.size
  step : Action.step su last = .ok false after
  popped : after.frames.size ≤ m.frames.size

/-- The machine is about to return a value: nil, or what is on top of the stack. -/
def Machine.Returns (m : Machine) (v : Value) : Prop :=
  ∃ ins, decode m.function.code m.ip = .ok ins ∧ ins.Gives m.stack v

/-- What holds of every call that `m` is about to begin. -/
def Machine.CallsReturn (su : Surroundings) (m : Machine) : Prop :=
  ∀ f cells st args, m.Calls su f cells st args →
    Action.Ends (Action.step su) m (fun halted n => halted = false ∧ m.Entered f cells st args n)
      (fun fault _ => fault.isLimit = true) ∧
    ∀ k last after, m.Spans su k last after →
      (∀ j n, 0 < j → j ≤ k → m.run su j = .running n →
        n.frames.take m.frames.size = m.frames ∧ n.stack.take st.size = st) ∧
      ∃ v, last.Returns v ∧ m.Resumed (m.ip + 2) st v after

theorem Machine.Foreseen.callsReturn {main : Routine Value} {range : CodeRange} {m : Machine}
    {su : Surroundings} (hmain : main.scope.kind = .topLevel) (hhost : SoundHost su.host)
    (h : m.Foreseen main range) : m.CallsReturn su := by
  intro f cells st args hcalls
  refine ⟨hcalls.enters, fun k last after hspans => ?_⟩
  have hactive : m.frames.back?.map Frame.function = some m.function := by
    obtain ⟨⟨frame, callers, hframes, hfunction, -⟩, -⟩ := h
    rw [hframes, Array.back?_push, hfunction]
    rfl
  have henters := hcalls.enters
  have hnext := h.step hmain hhost
  unfold Action.Ends at henters hnext
  -- the first step begins the call
  have hduring : ∀ j n, 0 < j → j ≤ k → m.run su j = .running n →
      n.Foreseen main range ∧ m.During (m.ip + 2) st n := by
    intro j n hj hle hrun
    obtain ⟨j, rfl⟩ := Nat.exists_eq_succ_of_ne_zero (Nat.ne_of_gt hj)
    obtain ⟨n₁, hstep, hrun⟩ := Machine.run_succ_eq_running hrun
    rw [hstep] at henters hnext
    obtain ⟨-, hentered⟩ := henters
    refine hentered.during.run hmain hhost hactive (hnext rfl) hrun fun i x hi hx => ?_
    exact hspans.active (i + 1) x (Nat.succ_pos i) (by omega) ((Machine.run_succ hstep i).trans hx)
  refine ⟨fun j n hj hle hrun => ?_, ?_⟩
  · obtain ⟨-, hwithin, hstack⟩ := hduring j n hj hle hrun
    exact ⟨hwithin.take_eq, hstack⟩
  · cases k with
    | zero =>
      cases hspans.reached
      rw [hspans.step] at henters
      obtain ⟨-, ⟨frame, -, hframes⟩, -⟩ := henters
      have hpopped := hspans.popped
      rw [hframes, Array.size_push] at hpopped
      exact absurd hpopped (Nat.not_succ_le_self _)
    | succ k =>
      obtain ⟨hforeseen, hlast⟩ := hduring (k + 1) last (Nat.succ_pos k) (Nat.le_refl _)
        hspans.reached
      obtain ⟨ins, hdecoded, hproceeds⟩ := hforeseen.proceeds hmain hspans.step
      rcases hlast.step hactive hproceeds with hgoing | ⟨v, hgives, hresumed⟩
      · exact absurd hgoing.frames.size_lt (Nat.not_lt_of_le hspans.popped)
      · exact ⟨v, ⟨ins, hdecoded, hgives⟩, hresumed⟩

end Ember
