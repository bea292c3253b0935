import Ember.Proofs.Machine.Calls

/-! Runs under different limits. Two settings whose limits are ordered take the same steps, until
one of the tighter limits is passed: a limit cuts a run short and changes nothing else about it. -/
namespace Ember
set_option autoImplicit false

/-! ## Limits -/

/-- The fault tells that a limit has been passed: on the steps, on the stack or on the calls. -/
def Fault.passesLimit : Fault → Bool
  | .stepLimit _ | .stackLimit _ | .depthLimit .. => true
  | _ => false

/-- Each limit of the second settings is at least as large; where they do not limit the steps, there
is nothing to compare. -/
structure Settings.Within (c c' : Settings) : Prop where
  steps : ∀ limit', c'.maxSteps = some limit' → ∃ limit, c.maxSteps = some limit ∧ limit ≤ limit'
  stack : c.maxStackSize ≤ c'.maxStackSize
  depth : c.maxCallDepth ≤ c'.maxCallDepth

/-- The states in which a step comes to a check of a limit: once it has been counted, and, if it
calls a function, once the call has taken its operands off the stack. -/
inductive Machine.Checked (su : Surroundings) (m : Machine) : Machine → Prop
  | counted : Checked su m { m with steps := m.steps + 1 }
  | calling {counted called : Machine} {ins : Instruction} {values : Array Value}
      {f : Routine Value} {cells : Array CellRef}
      (hcounted : Action.checkLimits su.settings m = .ok () counted)
      (hdecoded : decode m.function.code m.ip = .ok ins) (hcall : ins.op = .call)
      (htaken : Action.popMany (ins.operand 0 + 1) { counted with ip := m.ip + ins.size } =
        .ok values called)
      (hcallee : (values.getD 0 .nil).callee? = some (f, cells))
      (harity : values.size = f.arity + 1) : Checked su m called

section
variable {c c' : Settings} {m m' : Machine}

theorem Action.checkLimits_eq_ok_iff : checkLimits c m = .ok () m' ↔
    (∀ limit, c.maxSteps = some limit → m.steps + 1 ≤ limit) ∧ m.stack.size ≤ c.maxStackSize ∧
      m' = { m with steps := m.steps + 1 } := by
  have hstack : checkLimits.checkStack c { m with steps := m.steps + 1 } = .ok () m' ↔
      m.stack.size ≤ c.maxStackSize ∧ m' = { m with steps := m.steps + 1 } := by
    unfold checkLimits.checkStack
    split
    · rename_i hsize
      exact ⟨nofun, fun h => absurd h.1 (Nat.not_le_of_lt hsize)⟩
    · rename_i hsize
      constructor
      · intro h
        cases h
        exact ⟨Nat.le_of_not_lt hsize, rfl⟩
      · rintro ⟨-, rfl⟩
        rfl
  unfold checkLimits
  dsimp only
  cases c.maxSteps with
  | none =>
    rw [hstack]
    exact ⟨fun h => ⟨nofun, h⟩, fun h => h.2⟩
  | some limit =>
    dsimp only
    by_cases hlimit : limit < m.steps + 1
    · rw [if_pos hlimit]
      exact ⟨nofun, fun h => absurd (h.1 limit rfl) (Nat.not_le_of_lt hlimit)⟩
    · rw [if_neg hlimit, hstack]
      refine ⟨fun h => ⟨fun other hother => ?_, h⟩, fun h => h.2⟩
      cases hother
      exact Nat.le_of_not_lt hlimit

/-! ## One step -/

/-- A step that passes the tighter limits passes the looser ones. -/
theorem Settings.Within.checkLimits (h : c.Within c') (hok : Action.checkLimits c m = .ok () m') :
    Action.checkLimits c' m = .ok () m' := by
  obtain ⟨hsteps, hstack, hm'⟩ := Action.checkLimits_eq_ok_iff.1 hok
  refine Action.checkLimits_eq_ok_iff.2 ⟨fun limit' hlimit' => ?_, Nat.le_trans hstack h.stack, hm'⟩
  obtain ⟨limit, hlimit, hle⟩ := h.steps limit' hlimit'
  exact Nat.le_trans (hsteps limit hlimit) hle

/-- The beginning of a call is the same under looser limits, unless the tighter one on the calls has
been passed. -/
theorem Settings.Within.enter (h : c.Within c') (host : Array HostFunction) (f : Routine Value)
    (cells : Array CellRef) (args : Array Value) (m : Machine) :
    Action.enter ⟨c', host⟩ f cells args m = Action.enter ⟨c, host⟩ f cells args m ∨
      args.size = f.arity ∧
        Action.enter ⟨c, host⟩ f cells args m = .error (.depthLimit c.maxCallDepth f.name) m := by
  unfold Action.enter
  by_cases harity : args.size ≠ f.arity
  · rw [if_pos harity, if_pos harity]
    exact .inl rfl
  · rw [if_neg harity, if_neg harity]
    by_cases hdepth : c.maxCallDepth ≤ m.frames.size
    · rw [if_pos hdepth]
      exact .inr ⟨Decidable.of_not_not harity, rfl⟩
    · have hdepth' : ¬ c'.maxCallDepth ≤ m.frames.size := by
        have := h.depth
        omega
      rw [if_neg hdepth, if_neg hdepth']
      exact .inl rfl

/-- Only calls ask for a limit. -/
theorem Action.execute_settings {host : Array HostFunction} {offset : Nat} {ins : Instruction}
    (hcall : ins.op ≠ .call) :
    execute ⟨c', host⟩ offset ins = execute ⟨c, host⟩ offset ins := by
  obtain ⟨op, operands⟩ := ins
  cases op with
  | call => exact absurd rfl hcall
  | _ => rfl

theorem Action.size_of_popMany {n : Nat} {values : Array Value}
    (h : popMany n m = .ok values m') : values.size = n := by
  unfold popMany at h
  dsimp only at h
  split at h
  · cases h
  · cases h
    rw [Array.size_extract]
    omega

/-- A call comes to the same under looser limits, or the tighter one on the calls has been passed
once the operands have been taken. -/
theorem Settings.Within.call (h : c.Within c') (host : Array HostFunction) (count : Nat)
    (m : Machine) :
    Action.call ⟨c', host⟩ count m = Action.call ⟨c, host⟩ count m ∨
      ∃ values called f cells, Action.popMany (count + 1) m = .ok values called ∧
        (values.getD 0 .nil).callee? = some (f, cells) ∧ values.size = f.arity + 1 ∧
        Action.call ⟨c, host⟩ count m = .error (.depthLimit c.maxCallDepth f.name) called := by
  have hbind : ∀ s, Action.call s count m = EStateM.bind (Action.popMany (count + 1)) _ m :=
    fun s => rfl
  rw [hbind, hbind, EStateM.bind, EStateM.bind]
  cases htaken : Action.popMany (count + 1) m with
  | error fault m' => exact .inl rfl
  | ok values called =>
    have hsize := Action.size_of_popMany htaken
    -- both kinds of callee begin a call in the same way
    have henters := fun f cells =>
      h.enter host f cells (values.extract 1 values.size) called
    dsimp only
    cases hcallee : values.getD 0 .nil with
    | function f =>
      refine (henters f #[]).imp_right fun ⟨harity, hfails⟩ => ?_
      rw [Array.size_extract] at harity
      exact ⟨values, called, f, #[], rfl, by rw [hcallee]; rfl, by omega, hfails⟩
    | closure number f cells =>
      refine (henters f cells).imp_right fun ⟨harity, hfails⟩ => ?_
      rw [Array.size_extract] at harity
      exact ⟨values, called, f, cells, rfl, by rw [hcallee]; rfl, by omega, hfails⟩
    | _ => exact .inl rfl

/-- What a step does once it has been counted. -/
theorem Action.step_of_counted {s : Surroundings} {counted : Machine}
    (hok : checkLimits s.settings m = .ok () counted) : step s m =
      match decode counted.function.code counted.ip with
      | .error e => .error (.undecodable e) counted
      | .ok ins =>
        if ins.op = .halt then .ok true { counted with ip := counted.ip + ins.size }
        else match execute s counted.ip ins { counted with ip := counted.ip + ins.size } with
          | .ok () m' => .ok false m'
          | .error fault m' => .error fault m' := by
  show EStateM.bind _ _ m = _
  rw [EStateM.bind, hok]
  show EStateM.bind _ _ counted = _
  unfold EStateM.bind fetch
  dsimp only
  cases decode counted.function.code counted.ip with
  | error e => rfl
  | ok ins =>
    dsimp only
    by_cases hhalt : ins.op = .halt
    · rw [if_pos hhalt, if_pos hhalt]
      rfl
    · rw [if_neg hhalt, if_neg hhalt]
      show EStateM.bind _ _ _ = _
      unfold EStateM.bind
      cases execute s counted.ip ins { counted with ip := counted.ip + ins.size } with
      | ok u m' => rfl
      | error fault m' => rfl

/-- A step that passes a limit has been counted. -/
theorem Action.step_of_limit {s : Surroundings} {fault : Fault} {counted : Machine}
    (h : checkLimits s.settings m = .error fault counted) : step s m = .error fault counted := by
  show EStateM.bind _ _ m = _
  rw [EStateM.bind, h]

/-- A step does the same under looser limits, unless a tighter limit has been passed. The check of
that limit is met in the same state under both. -/
theorem Settings.Within.step (h : c.Within c') (host : Array HostFunction) (m : Machine) :
    Action.step ⟨c', host⟩ m = Action.step ⟨c, host⟩ m ∨
      ∃ fault m', Action.step ⟨c, host⟩ m = .error fault m' ∧ fault.passesLimit = true ∧
        m.Checked ⟨c, host⟩ m' ∧ m.Checked ⟨c', host⟩ m' := by
  rcases Action.checkLimits_cases c m with hok | ⟨fault, hlimit, herror⟩
  · have hok' := h.checkLimits hok
    rw [Action.step_of_counted (s := ⟨c, host⟩) hok, Action.step_of_counted (s := ⟨c', host⟩) hok']
    dsimp only
    cases hdecoded : decode m.function.code m.ip with
    | error e => exact .inl rfl
    | ok ins =>
      dsimp only
      by_cases hhalt : ins.op = .halt
      · rw [if_pos hhalt, if_pos hhalt]
        exact .inl rfl
      rw [if_neg hhalt, if_neg hhalt]
      by_cases hcall : ins.op = .call
      · obtain ⟨op, operands⟩ := ins
        obtain rfl : op = .call := hcall
        have hexecute : ∀ s : Surroundings, Action.execute s m.ip ⟨.call, operands⟩ =
            Action.call s (Instruction.operand ⟨.call, operands⟩ 0) := fun s => rfl
        rw [hexecute, hexecute]
        rcases h.call host (Instruction.operand ⟨.call, operands⟩ 0) _ with
          hsame | ⟨values, called, f, cells, htaken, hcallee, harity, hfails⟩
        · rw [hsame]
          exact .inl rfl
        · rw [hfails]
          exact .inr ⟨_, called, rfl, rfl, .calling hok hdecoded rfl htaken hcallee harity,
            .calling hok' hdecoded rfl htaken hcallee harity⟩
      · rw [Action.execute_settings hcall]
        exact .inl rfl
  · refine .inr ⟨fault, _, Action.step_of_limit herror, ?_, .counted, .counted⟩
    cases fault with
    | stepLimit | stackLimit => rfl
    | _ => cases hlimit

end

/-! ## Runs -/

namespace Machine

variable {c c' : Settings} {host : Array HostFunction} {m : Machine} {fuel : Nat}

/-- A run that still goes on is the same under looser limits. -/
theorem run_within (h : c.Within c') {n : Machine} (hrun : m.run ⟨c, host⟩ fuel = .running n) :
    m.run ⟨c', host⟩ fuel = .running n := by
  induction fuel generalizing m with
  | zero => exact hrun
  | succ fuel ih =>
    obtain ⟨m₁, hstep, hrest⟩ := run_succ_eq_running hrun
    rcases h.step host m with hsame | ⟨fault, m', hfails, -⟩
    · rw [hstep] at hsame
      rw [run_succ hsame]
      exact ih hrest
    · cases hstep.symm.trans hfails

/-- A run that has come to an end was going on until its last step. -/
theorem exists_last_step {su : Surroundings} {r : Outcome} (hrun : m.run su fuel = r)
    (hended : ∀ n, r ≠ .running n) :
    ∃ k last, k < fuel ∧ m.run su k = .running last ∧ last.run su 1 = r := by
  induction fuel generalizing m with
  | zero => exact absurd hrun.symm (hended m)
  | succ fuel ih =>
    cases hstep : Action.step su m with
    | ok halted m₁ =>
      cases halted with
      | true =>
        refine ⟨0, m, Nat.succ_pos fuel, rfl, ?_⟩
        rw [run, hstep] at hrun ⊢
        exact hrun
      | false =>
        rw [run_succ hstep] at hrun
        obtain ⟨k, last, hk, hlast, hends⟩ := ih hrun
        exact ⟨k + 1, last, Nat.succ_lt_succ hk, (run_succ hstep k).trans hlast, hends⟩
    | error fault m₁ =>
      refine ⟨0, m, Nat.succ_pos fuel, rfl, ?_⟩
      rw [run, hstep] at hrun ⊢
      exact hrun

/-- A run that goes on for `k` steps goes on for fewer. -/
theorem run_of_le {su : Surroundings} {k j : Nat} {n : Machine} (hrun : m.run su k = .running n)
    (hj : j ≤ k) : ∃ n', m.run su j = .running n' := by
  cases hend : m.run su j with
  | running n' => exact ⟨n', rfl⟩
  | halted n' => cases (run_of_ended hend nofun hj).symm.trans hrun
  | failed failure n' => cases (run_of_ended hend nofun hj).symm.trans hrun

/-- A run that ends is the same under looser limits, or its last step has passed a limit, and the
check of that limit is met under both. -/
theorem run_within_ended (h : c.Within c') {r : Outcome} (hrun : m.run ⟨c, host⟩ fuel = r)
    (hended : ∀ n, r ≠ .running n) :
    ∃ k last, k < fuel ∧ m.run ⟨c, host⟩ k = .running last ∧ last.run ⟨c, host⟩ 1 = r ∧
      (m.run ⟨c', host⟩ fuel = r ∨
        ∃ failure m', r = .failed failure m' ∧ failure.fault.passesLimit = true ∧
          last.Checked ⟨c, host⟩ m' ∧ last.Checked ⟨c', host⟩ m') := by
  obtain ⟨k, last, hk, hlast, hends⟩ := exists_last_step hrun hended
  refine ⟨k, last, hk, hlast, hends, ?_⟩
  rcases h.step host last with hsame | ⟨fault, m', hfails, hlimit, hchecked⟩
  · left
    have hends' : last.run ⟨c', host⟩ 1 = r := by
      rw [run] at hends ⊢
      rw [hsame]
      exact hends
    have hrun' : m.run ⟨c', host⟩ (k + 1) = r := by
      rw [run_add (run_within h hlast), hends']
    exact run_of_ended hrun' hended hk
  · right
    refine ⟨⟨fault, m'.callStack⟩, m', ?_, hlimit, hchecked⟩
    rw [← hends, run, hfails]

end Machine

/-- Limits only cut runs short. Where each limit is at least as large, a run that halts, still goes
on or fails for another reason than a limit is the same. Each that fails goes through the same
states before its last step, and where it passes a limit, up to the state in which that limit is
checked. -/
theorem limits_only_cut_runs_short (c c' : Settings) (h : c.Within c') (host : Array HostFunction)
    (main : Routine Value) (offset : Nat) (globals : Globals) (heap : Heap) (world : World)
    (fuel : Nat) :
    let run (settings : Settings) (steps : Nat) :=
      (Machine.start main offset globals heap world).run ⟨settings, host⟩ steps
    (∀ m, run c fuel = .halted m → run c' fuel = .halted m) ∧
    (∀ m, run c fuel = .running m → run c' fuel = .running m) ∧
    ∀ failure m, run c fuel = .failed failure m →
      (run c' fuel = .failed failure m ∨ failure.fault.passesLimit = true) ∧
      ∃ k last, k < fuel ∧ run c k = .running last ∧ last.run ⟨c, host⟩ 1 = .failed failure m ∧
        (∀ j, j ≤ k → ∃ n, run c j = .running n ∧ run c' j = .running n) ∧
        (run c' fuel = .failed failure m ∨
          last.Checked ⟨c, host⟩ m ∧ last.Checked ⟨c', host⟩ m) := by
  intro run
  refine ⟨fun m hrun => ?_, fun m hrun => Machine.run_within h hrun, fun failure m hrun => ?_⟩
  · obtain ⟨-, -, -, -, -, hsame | ⟨failure, m', hfailed, -⟩⟩ := Machine.run_within_ended h hrun
      nofun
    · exact hsame
    · cases hfailed
  · obtain ⟨k, last, hk, hlast, hends, hcut⟩ := Machine.run_within_ended h hrun nofun
    have hbefore : ∀ j, j ≤ k → ∃ n, run c j = .running n ∧ run c' j = .running n := by
      intro j hj
      obtain ⟨n, hn⟩ := Machine.run_of_le hlast hj
      exact ⟨n, hn, Machine.run_within h hn⟩
    rcases hcut with hsame | ⟨failure', m', hfailed, hlimit, hchecked⟩
    · exact ⟨.inl hsame, k, last, hk, hlast, hends, hbefore, .inl hsame⟩
    · cases hfailed
      exact ⟨.inr hlimit, k, last, hk, hlast, hends, hbefore, .inr hchecked⟩

/-- A call of a function that returns at once. -/
def callAtOnce : Routine Value where
  id := 0
  name := "main"
  params := #[]
  code := (([⟨.loadConst, [0]⟩, ⟨.call, [0]⟩, ⟨.halt, []⟩] : List Instruction).flatMap
    Instruction.encode).toArray
  constants := #[.function ⟨1, "f", #[], (Instruction.encode ⟨.returnValue, [0]⟩).toArray, #[], #[],
    0, #[], ⟨.function, "main.f", #[]⟩⟩]
  names := #[]
  localCount := 0
  freeVariables := #[]
  scope := ⟨.topLevel, "main", #[]⟩

/-- The fault with which a run has failed and the height of the stack it has left. -/
def Outcome.fault? : Outcome → Option (Fault × Nat)
  | .failed failure m => some (failure.fault, m.stack.size)
  | _ => none

theorem Outcome.fault?_eq_some {r : Outcome} {fault : Fault} {height : Nat}
    (h : r.fault? = some (fault, height)) :
    ∃ failure m, r = .failed failure m ∧ failure.fault = fault ∧ m.stack.size = height := by
  cases r with
  | failed failure m =>
    cases h
    exact ⟨failure, m, rfl, rfl, rfl⟩
  | _ => cases h

/-- Where no call may begin, the run stops once the callee has been taken off the stack, and comes
to that state where calls may begin as well. -/
theorem limits_only_cut_runs_short_in_call :
    Settings.Within ⟨1, some 3, 1, true⟩ ⟨2, none, 1, false⟩ ∧
      ∃ (failure : Failure) (m last : Machine),
        (Machine.start callAtOnce 0 .empty .empty (.start 0 0)).run ⟨⟨1, some 3, 1, true⟩, #[]⟩ 2 =
          .failed failure m ∧
        failure.fault = .depthLimit 1 "f" ∧ m.stack.size = 0 ∧
        last.Checked ⟨⟨2, none, 1, false⟩, #[]⟩ m := by
  have hwithin : Settings.Within ⟨1, some 3, 1, true⟩ ⟨2, none, 1, false⟩ :=
    ⟨nofun, by decide, by decide⟩
  have htight : ((Machine.start callAtOnce 0 .empty .empty (.start 0 0)).run
      ⟨⟨1, some 3, 1, true⟩, #[]⟩ 2).fault? = some (.depthLimit 1 "f", 0) := by decide +kernel
  have hloose : ((Machine.start callAtOnce 0 .empty .empty (.start 0 0)).run
      ⟨⟨2, none, 1, false⟩, #[]⟩ 2).fault? = none := by decide +kernel
  obtain ⟨failure, m, hrun, hfault, hsize⟩ := Outcome.fault?_eq_some htight
  obtain ⟨-, k, last, -, -, -, -, hsame | ⟨-, hchecked⟩⟩ :=
    (limits_only_cut_runs_short _ _ hwithin #[] callAtOnce 0 .empty .empty (.start 0 0) 2).2.2
      failure m hrun
  · dsimp only at hsame
    rw [hsame] at hloose
    cases hloose
  · exact ⟨hwithin, failure, m, last, hrun, hfault, hsize, hchecked⟩

end Ember
