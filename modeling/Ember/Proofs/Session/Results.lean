import Ember.Proofs.Compile.Results
import Ember.Proofs.Session.Splits

/-! What chunks leave. A chunk that halts has left all calls, and has one value on the stack if its
last statement is an expression, and none otherwise. Before that expression the stack was empty, so
the value is its own. -/
namespace Ember
set_option autoImplicit false

/-! ## Runs of a chunk -/

/-- A chunk leaves a value exactly if an expression comes last. -/
theorem valuesLeft_eq_one_iff {statements : List Stmt} :
    valuesLeft statements = 1 ↔ ∃ init span e, statements = init ++ [Stmt.expr span e] := by
  fun_induction valuesLeft statements with
  | case1 => simp
  | case2 span e => exact ⟨fun _ => ⟨[], span, e, rfl⟩, fun _ => rfl⟩
  | case3 st rest hne ih =>
    rw [ih]
    constructor
    · rintro ⟨init, span, e, rfl⟩
      exact ⟨st :: init, span, e, rfl⟩
    · rintro ⟨init, span, e, hlast⟩
      cases init with
      | nil =>
        obtain ⟨hst, hrest⟩ := List.cons.inj hlast
        exact absurd hrest (hne span e hst)
      | cons st' init =>
        exact ⟨init, span, e, (List.cons.inj hlast).2⟩

/-- A run that halts comes to a last state, and halts there. -/
theorem Machine.run_eq_halted {su : Surroundings} {m m' : Machine} {fuel : Nat}
    (h : m.run su fuel = .halted m') :
    ∃ k last, k < fuel ∧ m.run su k = .running last ∧ Action.step su last = .ok true m' := by
  induction fuel generalizing m with
  | zero => cases h
  | succ fuel ih =>
    rw [Machine.run] at h
    split at h
    · rename_i n hstep
      cases h
      exact ⟨0, m, Nat.succ_pos fuel, rfl, hstep⟩
    · rename_i n hstep
      obtain ⟨k, last, hk, hrun, hhalts⟩ := ih h
      exact ⟨k + 1, last, Nat.succ_lt_succ hk, (Machine.run_succ hstep k).trans hrun, hhalts⟩
    · cases h

/-- The machine runs a row of instructions of the main function, on a stack of its own. -/
structure Machine.OnChunk (main : Routine Value) (start : Nat) (row : List Instruction)
    (m : Machine) : Prop where
  underway : m.Underway main start row
  bottom : m.frames[0]?.map Frame.base = some 0

namespace Machine.OnChunk

variable {main : Routine Value} {start count : Nat} {row more : List Instruction} {plan : Plan}
  {m m' n : Machine} {su : Surroundings}

/-- Outside of functions the stack is as high as the plan says. -/
theorem height (hplanned : Planned main start row plan) (h : m.OnChunk main start row)
    (hone : m.frames.size = 1) :
    ∃ s, plan.shapeFrom start m.ip = some s ∧ s.height = m.stack.size := by
  obtain ⟨-, frame, hframes, -⟩ := h.underway.foreseen.outermost hone
  obtain ⟨s, hs, hheight⟩ := h.underway.shape hplanned hframes
  have hbottom := h.bottom
  rw [hframes] at hbottom
  have hbase : frame.base = 0 := Option.some.inj hbottom
  rw [hbase, Nat.sub_zero] at hheight
  exact ⟨s, hs, hheight⟩

/-- A chunk halts behind its last instruction, with what the plan says on the stack. -/
theorem halted (hplanned : Planned main start (row ++ [⟨.halt, []⟩]) plan)
    (hlasting : ∀ ins ∈ row, ins.op ≠ .halt)
    (hleft : plan.shapeAt none (rowSize row) = some (.values count))
    (h : m.OnChunk main start (row ++ [⟨.halt, []⟩]))
    (hstep : Action.step su m = .ok true m') :
    (∃ frame, m'.frames = #[frame] ∧ frame.function = main) ∧ m'.stack.size = count := by
  obtain ⟨ins, hdecoded, ⟨-, hhalt, rfl⟩ | ⟨hhalted, -⟩⟩ := Action.step_eq_ok hstep
  · have hone := h.underway.halts hdecoded hhalt
    obtain ⟨hfunction, frame, hframes, hmain⟩ := h.underway.foreseen.outermost hone
    obtain ⟨s, hs, hheight⟩ := h.height hplanned hone
    obtain ⟨front, ins', back, -, hrow, hip, -⟩ := hplanned.item hs
    have hdecodes := hplanned.decodes
    rw [hrow] at hdecodes
    rw [hfunction, hip] at hdecoded
    cases hdecoded.symm.trans hdecodes.decode_eq
    obtain rfl : front = row := by
      rcases eq_or_mem_of_append_singleton hrow with ⟨hfront, -⟩ | ⟨back', hrow⟩
      · exact hfront
      · exact absurd hhalt (hlasting ins (by rw [hrow]; simp))
    rw [hip, Plan.shapeFrom_add, hleft] at hs
    cases hs
    exact ⟨⟨frame, hframes, hmain⟩, hheight.symm⟩
  · cases hhalted

variable (hmain : main.scope.kind = .topLevel) (hhost : DiscreetHost su.host)
include hmain hhost

theorem step (h : m.OnChunk main start row) (hstep : Action.step su m = .ok false m') :
    m'.OnChunk main start row := by
  obtain ⟨ins, -, hproceeds⟩ := h.underway.foreseen.proceeds hmain hstep
  exact ⟨h.underway.step hmain hhost hstep, hproceeds.bottom.trans h.bottom⟩

theorem run (h : m.OnChunk main start row) {k : Nat} (hrun : m.run su k = .running n) :
    n.OnChunk main start row := by
  induction k generalizing m with
  | zero =>
    cases hrun
    exact h
  | succ k ih =>
    obtain ⟨m₁, hstep, hrun⟩ := Machine.run_succ_eq_running hrun
    exact ih (h.step hmain hhost hstep) hrun

/-- A run that halts has come past the end of the statements before the last one. -/
theorem passes (hconcludes : Compiler.Concludes main start row more plan)
    (h : m.OnChunk main start (row ++ (more ++ [⟨.halt, []⟩]))) (hinside : m.Inside start row)
    {fuel : Nat} (hrun : m.run su fuel = .halted m') :
    ∃ k x, k < fuel ∧ m.run su k = .running x ∧ x.frames.size = 1 ∧
      x.ip = start + rowSize row := by
  induction fuel generalizing m with
  | zero => cases hrun
  | succ fuel ih =>
    by_cases hend : m.frames.size = 1 ∧ m.ip = start + rowSize row
    · exact ⟨0, m, Nat.succ_pos fuel, rfl, hend⟩
    · have hforeseen := h.underway.foreseen
      rw [Machine.run] at hrun
      split at hrun
      · -- no instruction of the row halts
        rename_i m₁ hstep
        obtain ⟨ins, hdecoded, ⟨-, hhalt, -⟩ | ⟨hhalted, -⟩⟩ := Action.step_eq_ok hstep
        · have hone := h.underway.halts hdecoded hhalt
          rcases hconcludes.before.next hforeseen hinside hone with
            hip | ⟨front, ins', back, hrow, -, hdecoded'⟩
          · exact absurd ⟨hone, hip⟩ hend
          · cases hdecoded.symm.trans hdecoded'
            exact absurd hhalt (hconcludes.lasting ins (by rw [hrow]; simp))
        · cases hhalted
      · rename_i m₁ hstep
        obtain ⟨ins, hdecoded, hproceeds⟩ := hforeseen.proceeds hmain hstep
        have hinside' := hconcludes.before.step hforeseen hinside hend hdecoded hproceeds
        obtain ⟨k, x, hk, hx, hplace⟩ := ih (h.step hmain hhost hstep) hinside' hrun
        exact ⟨k + 1, x, Nat.succ_lt_succ hk, (Machine.run_succ hstep k).trans hx, hplace⟩
      · cases hrun

/-- From then on the chunk is in the code of its last expression. -/
theorem stays (hconcludes : Compiler.Concludes main start row more plan)
    (h : m.OnChunk main start (row ++ (more ++ [⟨.halt, []⟩])))
    (hinside : m.Inside (start + rowSize row) more) {k : Nat} (hrun : m.run su k = .running n) :
    n.Inside (start + rowSize row) more := by
  induction k generalizing m with
  | zero =>
    cases hrun
    exact hinside
  | succ k ih =>
    have hforeseen := h.underway.foreseen
    obtain ⟨m₁, hstep, hrun⟩ := Machine.run_succ_eq_running hrun
    obtain ⟨ins, hdecoded, hproceeds⟩ := hforeseen.proceeds hmain hstep
    refine ih (h.step hmain hhost hstep) ?_ hrun
    refine hconcludes.last.step hforeseen hinside ?_ hdecoded hproceeds
    rintro ⟨hone, hip⟩
    -- behind the expression the chunk halts
    have hhalt := hconcludes.planned.decodes.right.right.1
    rw [← hip, ← (hforeseen.outermost hone).1, hdecoded] at hhalt
    cases hhalt
    obtain ⟨ins', hdecoded', ⟨hhalted, -⟩ | ⟨-, hhalt', -⟩⟩ := Action.step_eq_ok hstep
    · cases hhalted
    · cases hdecoded.symm.trans hdecoded'
      exact absurd rfl hhalt'

end Machine.OnChunk

/-! ## Chunks of a session -/

/-- A chunk that is planned can be run at any later moment. -/
theorem Moment.Tracked.onChunk {t : Session} {chunks : List CodeRange} {L : Ledger}
    (h : Moment.Tracked ⟨t, chunks, none, L⟩) {range : CodeRange} {row : List Instruction}
    {plan : Plan} (hplanned : Planned t.main range.start row plan) :
    (t.launch range).OnChunk t.main range.start row :=
  ⟨h.underway hplanned _, rfl⟩

/-- The chunk `range` of `t`, to which `s` has compiled a program, halts in `m` outside of all
calls. Where the last statement is an expression, its value is the answer and the only value on the
stack: the run has come to the code of the expression with an empty stack, and has then stayed there
or in calls from there. Otherwise the stack is empty, and the answer is nil. -/
structure Session.Concludes (s : Session) (p : Program) (t : Session) (range : CodeRange)
    (fuel : Nat) (m : Machine) : Prop where
  halted : (t.launch range).run t.surroundings fuel = .halted m
  frames : ∃ frame, m.frames = #[frame] ∧ frame.function = t.main
  value : ∀ init span e, p.statements = init ++ [Stmt.expr span e] →
    ∃ v, m.stack = #[v] ∧ (t.executeFor fuel range).1.result = .ok v ∧
      ∃ front s₁ body s₂,
        compileStmts s.compiler.builtins false init #[] s.compiler.state = .ok (front, s₁) ∧
        compileExpr s.compiler.builtins e s₁ = .ok (body, s₂) ∧
        ∃ k x, k < fuel ∧ (t.launch range).run t.surroundings k = .running x ∧
          x.frames.size = 1 ∧ x.stack = #[] ∧ x.ip = range.start + front.byteSize ∧
          ∀ j y, x.run t.surroundings j = .running y →
            x.ip ≤ y.home ∧ y.home ≤ x.ip + body.byteSize
  nothing : (∀ init span e, p.statements ≠ init ++ [Stmt.expr span e]) →
    m.stack = #[] ∧ (t.executeFor fuel range).1.result = .ok .nil

theorem Session.executeFor_halted {t : Session} {range : CodeRange} {fuel : Nat} {m : Machine}
    (h : (t.launch range).run t.surroundings fuel = .halted m) :
    (t.executeFor fuel range).1.result = .ok (m.top?.getD .nil) := by
  rw [executeFor_eq, h]
  rfl

/-- The run comes to the code of the last expression with an empty stack. -/
theorem Machine.OnChunk.reaches_last {main : Routine Value} {start fuel : Nat}
    {row more : List Instruction} {plan : Plan} {m m' : Machine} {su : Surroundings}
    (hmain : main.scope.kind = .topLevel) (hhost : DiscreetHost su.host)
    (hconcludes : Compiler.Concludes main start row more plan)
    (h : m.OnChunk main start (row ++ (more ++ [⟨.halt, []⟩]))) (hhome : m.home = start)
    (hrun : m.run su fuel = .halted m') :
    ∃ k x, k < fuel ∧ m.run su k = .running x ∧ x.frames.size = 1 ∧ x.stack = #[] ∧
      x.ip = start + rowSize row ∧ ∀ j y, x.run su j = .running y →
        x.ip ≤ y.home ∧ y.home ≤ x.ip + rowSize more := by
  obtain ⟨k, x, hk, hx, hone, hip⟩ := h.passes hmain hhost hconcludes ⟨[], row, rfl, hhome⟩ hrun
  have honChunk := h.run hmain hhost hx
  obtain ⟨s, hs, hheight⟩ := honChunk.height hconcludes.planned hone
  rw [hip, Plan.shapeFrom_add, hconcludes.between] at hs
  cases hs
  refine ⟨k, x, hk, hx, hone, Array.size_eq_zero_iff.1 hheight.symm, hip, fun j y hy => ?_⟩
  have hinside : x.Inside (start + rowSize row) more :=
    ⟨[], more, rfl, (Machine.home_of_one hone).trans hip⟩
  obtain ⟨front, back, hrow, hplace⟩ := honChunk.stays hmain hhost hconcludes hinside hy
  rw [hip, hplace, hrow, rowSize_append]
  omega

/-- Whenever the chunk is run, what has been compiled since has no part in it. -/
theorem Session.concludes {s t : Session} {p : Program} {range : CodeRange} {c' : Compiler}
    {chunks : List CodeRange} {L : Ledger} (programs : List Program) (hc : s.compiler.Sound)
    (hcompile : s.compiler.compile p = .ok (range, c'))
    (ht : Moment.Tracked ⟨t, chunks, none, L⟩) (hlater : t.compiler = c'.after programs)
    {fuel : Nat} {m : Machine} (hrun : (t.launch range).run t.surroundings fuel = .halted m) :
    s.Concludes p t range fuel m := by
  have hmain := Compiler.kind_main ht.compiler
  have hsound := (Compiler.compile_spec hc hcompile).1
  have hkept : Routine.Extends c'.main t.main ∧ ∃ more, t.main.code = c'.main.code ++ more := by
    unfold Session.main
    rw [hlater]
    exact Compiler.after_keeps hsound programs
  obtain ⟨hext, added, hcode⟩ := hkept
  obtain ⟨-, row, plan, -, -, -, -, -, hplanned, -, hlasting, hleft⟩ :=
    Compiler.compile_planned hc hcompile
  obtain ⟨rfl, -, -⟩ := Compiler.compile_same hcompile
  have hplanned' := hplanned.mono hext hcode
  -- where the run halts
  obtain ⟨k, last, hk, hlast, hhalts⟩ := Machine.run_eq_halted hrun
  have honChunk := (ht.onChunk hplanned').run hmain ht.host hlast
  obtain ⟨hframes, hcount⟩ := honChunk.halted hplanned' hlasting hleft hhalts
  refine ⟨hrun, hframes, fun init span e hp => ?_, fun hnone => ?_⟩
  · have hone : m.stack.size = 1 := hcount.trans (valuesLeft_eq_one_iff.2 ⟨init, span, e, hp⟩)
    obtain ⟨v, hv⟩ := Array.size_eq_one_iff.1 hone
    obtain ⟨statements⟩ := p
    cases hp
    obtain ⟨front, s₁, body, row', more, plan', hfront, hbody, hsize, hsize', hconcludes⟩ :=
      Compiler.compile_concludes hc hcompile
    have hconcludes' := hconcludes.mono hext hcode
    obtain ⟨k, x, hk, hx, hrest⟩ := (ht.onChunk hconcludes'.planned).reaches_last hmain ht.host
      hconcludes' rfl hrun
    refine ⟨v, hv, ?_, front, s₁, body, _, hfront, hbody, k, x, hk, hx, ?_⟩
    · rw [executeFor_halted hrun, Machine.top?, hv]
      rfl
    · rw [hsize, hsize']
      exact hrest
  · have hzero : m.stack.size = 0 := by
      have hle := valuesLeft_le_one p.statements
      have hne : valuesLeft p.statements ≠ 1 := by
        intro hone
        obtain ⟨init, span, e, hp⟩ := valuesLeft_eq_one_iff.1 hone
        exact hnone init span e hp
      omega
    have hempty := Array.size_eq_zero_iff.1 hzero
    refine ⟨hempty, ?_⟩
    rw [executeFor_halted hrun, Machine.top?, hempty]
    rfl

/-- Every chunk of a session that halts, whenever it is run, leaves the value of its last expression
and nothing else; the evaluation of a text gives that value, or nil. All code is compiled code, also
what the host hands out: other code may halt in a call. -/
theorem chunks_leave_their_last_value (settings : Settings) (host : Array HostFunction)
    (world : World) (hhost : DiscreetHost host) (s : Session) (chunks : List CodeRange) (L : Ledger)
    (hs : Lived (Session.start settings host .empty world) ⟨s, chunks, none, L⟩)
    (p : Program) (range : CodeRange) (s' : Session) (hcompile : s.compile p = (.ok range, s')) :
    (∀ t chunks' L' programs,
      Lived (Session.start settings host .empty world) ⟨t, chunks', none, L'⟩ →
      t.compiler = s'.compiler.after programs →
      ∀ fuel m, (t.launch range).run t.surroundings fuel = .halted m →
        s.Concludes p t range fuel m) ∧
    ∀ source, parse source = .ok p →
      s.evaluate source = s'.executeFor Machine.ample range ∧
      ∀ v, (s.evaluate source).1.result = .ok v → ∃ m, s.Concludes p s' range Machine.ample m := by
  have hfirst := tracked_start settings world hhost
  have hsound : s.compiler.Sound := (hs.tracked hfirst).compiler
  obtain ⟨c', hok, hs'⟩ := (Session.compile_eq_ok_iff hsound).1 hcompile
  subst hs'
  refine ⟨fun t chunks' L' programs ht hlater fuel m hrun =>
    Session.concludes programs hsound hok (ht.tracked hfirst) hlater hrun, fun source hparse => ?_⟩
  have hevaluate : s.evaluate source =
      Session.executeFor { s with compiler := c' } Machine.ample range := by
    unfold Session.evaluate Session.load
    rw [hparse]
    dsimp only
    rw [hcompile]
    rfl
  refine ⟨hevaluate, fun v hv => ?_⟩
  have htracked := (hs.compile hcompile).tracked hfirst
  rw [hevaluate, Session.executeFor_eq] at hv
  cases hrun : (Session.launch { s with compiler := c' } range).run s.surroundings
    Machine.ample with
  | halted m => exact ⟨m, Session.concludes [] hsound hok htracked rfl hrun⟩
  | failed failure m =>
    rw [hrun] at hv
    cases hv
  | running m =>
    rw [hrun] at hv
    cases hv

/-- Whether a program comes to a truth value within so many steps, and to which. -/
def truth? (s : Session) (p : Program) (fuel : Nat) : Option Bool :=
  match s.compile p with
  | (.error _, _) => none
  | (.ok range, s') =>
    match (s'.launch range).run s'.surroundings fuel with
    | .halted m =>
      match m.top? with
      | some (.bool b) => some b
      | _ => none
    | _ => none

/-- A list is made and dropped before the call, so only the value of the call is left. -/
theorem chunks_leave_their_last_value_after_list : ∃ range s' m,
    (Session.start ⟨1000, none, 10000, false⟩ #[] .empty (.start 0 0)).compile
      ⟨makeList ++ callTrue⟩ = (.ok range, s') ∧
    (Session.start ⟨1000, none, 10000, false⟩ #[] .empty (.start 0 0)).Concludes
      ⟨makeList ++ callTrue⟩ s' range 8 m ∧ m.stack = #[.bool true] := by
  have htruth : truth? (Session.start ⟨1000, none, 10000, false⟩ #[] .empty (.start 0 0))
      ⟨makeList ++ callTrue⟩ 8 = some true := by decide +kernel
  unfold truth? at htruth
  split at htruth
  · cases htruth
  · rename_i range s' hcompile
    split at htruth
    · rename_i m hrun
      have hconcludes := (chunks_leave_their_last_value ⟨1000, none, 10000, false⟩ #[] (.start 0 0)
        nofun _ _ _ .start _ range s' hcompile).1 s' _ _ [] (Lived.start.compile hcompile) rfl 8 m
        hrun
      obtain ⟨v, hv, -⟩ := hconcludes.value makeList _ _ rfl
      refine ⟨range, s', m, hcompile, hconcludes, ?_⟩
      rw [Machine.top?, hv] at htruth
      split at htruth
      · rename_i b htop
        cases htruth
        cases htop
        exact hv
      · cases htruth
    · cases htruth

/-- The last statement is the expression `nil`. Still the chunk halts with two frames and two
values, and the answer is the value of a call before it. -/
theorem stop_leaves_two_frames : ∃ first b d range s' m,
    parse "stop()()\nnil" = .ok ⟨[first, .expr b (.nil d)]⟩ ∧
    stopSession.compile ⟨[first, .expr b (.nil d)]⟩ = (.ok range, s') ∧
    (s'.launch range).run s'.surroundings 6 = .halted m ∧ m.frames.size = 2 ∧
    m.stack = #[.nil, .bool true] ∧
    (stopSession.evaluate "stop()()\nnil").1.result = .ok (.bool true) := by
  have hsound : stopSession.compiler.Sound :=
    Session.sound_start .standard #[stop] .empty (.start 0 0)
  obtain ⟨a, outer, inner, place, b, d, hparse⟩ := parse_stop_nil
  obtain ⟨c, hc, m, hm, hframes, hstack⟩ :=
    stop_and_nil a outer inner place b d { stopSession.world with cancelled := false }
  let s' : Session := { stopSession with compiler := c }
  have hrun : (s'.launch ⟨0, c.code.size⟩).run s'.surroundings 6 = .halted m := hm
  refine ⟨_, b, d, _, s', m, hparse, (Session.compile_eq_ok_iff hsound).2 ⟨c, hc, rfl⟩, hrun,
    hframes, hstack, ?_⟩
  have hanswer := Session.executeFor_halted (Machine.run_of_ended hrun nofun
    (by decide : 6 ≤ Machine.ample))
  rw [Machine.top?, hstack] at hanswer
  unfold Session.evaluate Session.load
  rw [hparse]
  dsimp only
  rw [Session.compile_eq hsound, hc]
  exact hanswer

end Ember
