import Mathlib
import Ember.Proofs.Evaluation.Builtins

/-! Running a compiled program is evaluating it. A program without functions comes to a value or a
fault exactly if the run of its code does, to the same one, and both leave the same scene. -/
namespace Ember
set_option autoImplicit false

open CompileM

/-! ## Runs that have ended -/

/-- The run from the machine ends with the value on top of the stack or with the fault, and leaves
the scene. -/
def Machine.Finishes (su : Surroundings) (m : Machine) (σ : Scene) : Except Fault Value → Prop
  | .ok v => ∃ fuel m', m.run su fuel = .halted m' ∧ m'.top?.getD .nil = v ∧ m'.scene = σ
  | .error f => ∃ fuel m', m.run su fuel = .failed ⟨f, [m.function.name]⟩ m' ∧ m'.scene = σ

namespace Machine

variable {su : Surroundings} {m : Machine}

theorem Finishes.ended {σ : Scene} {result : Except Fault Value} (h : m.Finishes su σ result) :
    ∃ fuel r, m.run su fuel = r ∧ ∀ m', r ≠ .running m' := by
  cases result with
  | ok v =>
    obtain ⟨fuel, m', hrun, -⟩ := h
    exact ⟨fuel, _, hrun, nofun⟩
  | error f =>
    obtain ⟨fuel, m', hrun, -⟩ := h
    exact ⟨fuel, _, hrun, nofun⟩

theorem Finishes.unique {σ σ' : Scene} {result result' : Except Fault Value}
    (h : m.Finishes su σ result) (h' : m.Finishes su σ' result') : result = result' ∧ σ = σ' := by
  cases result with
  | ok v =>
    obtain ⟨fuel, m₁, hrun, rfl, rfl⟩ := h
    cases result' with
    | ok v' =>
      obtain ⟨fuel', m₂, hrun', rfl, rfl⟩ := h'
      cases run_unique hrun hrun' nofun nofun
      exact ⟨rfl, rfl⟩
    | error f' =>
      obtain ⟨fuel', m₂, hrun', -⟩ := h'
      cases run_unique hrun hrun' nofun nofun
  | error f =>
    obtain ⟨fuel, m₁, hrun, rfl⟩ := h
    cases result' with
    | ok v' =>
      obtain ⟨fuel', m₂, hrun', -⟩ := h'
      cases run_unique hrun hrun' nofun nofun
    | error f' =>
      obtain ⟨fuel', m₂, hrun', rfl⟩ := h'
      cases run_unique hrun hrun' nofun nofun
      exact ⟨rfl, rfl⟩

end Machine

/-! ## Chunks -/

/-- The run is about to halt with the value. -/
def Halting (main : Routine Value) (v : Value) (ip : Nat) (stack : Array Value) : Prop :=
  decode main.code ip = .ok ⟨.halt, []⟩ ∧ stack.back?.getD .nil = v

section
variable {su : Surroundings} {builtins : Std.HashSet String}
  (hsteps : su.settings.maxSteps = none)
include hsteps

/-- The code of a chunk plays its evaluation. It has no way out of a loop that is not there, so it
does not matter where such ways would lead. -/
theorem compileChunk_plays {s s' : CompileState} {statements : List Stmt} {code code' : Fragment}
    (hs : TopLevel s) (hfree : bodyFunctionFree statements = true)
    (hunsigned : BodyUnsigned statements)
    (h : compileChunk builtins statements code s = .ok (code', s')) :
    ∃ more, code'.toList = code.toList ++ more ∧ ∀ (main : Routine Value) (pos fuel : Nat),
      main.Covers s' → (∀ exits, LieAt main.code exits pos more) →
      Plays su main fuel (evalChunk su.host fuel statements) pos #[] (Halting main) := by
  fun_induction compileChunk builtins statements code generalizing s with
  | case1 code =>
    obtain ⟨rfl, rfl⟩ := pure_eq_ok.1 h
    refine ⟨[.op ⟨.halt, []⟩], Array.toList_push, fun main pos fuel _ hlies => .done ?_⟩
    exact ⟨(hlies fun _ => 0).1, rfl⟩
  | case2 span value code =>
    obtain ⟨more, hmore, rfl⟩ := bind_pure_eq_ok.1 h
    have hvalue : Means su (compileExpr builtins value) (value.eval su.host) :=
      compileExpr_means hsteps value (Bool.and_eq_true_iff.1 hfree).1 hunsigned.1
    refine ⟨more.toList ++ [.op ⟨.halt, []⟩], by simp, fun main pos fuel hcovers hlies => ?_⟩
    obtain ⟨hfront, hhalt, -⟩ := lieAt_append.1 (hlies fun _ => 0)
    refine (hvalue hs hmore main _ pos fuel #[] hcovers hfront).mono fun v ip stack hpushed => ?_
    rw [hpushed.1, hpushed.2]
    exact ⟨hhalt, rfl⟩
  | case3 st rest code hne ih =>
    obtain ⟨hst, hrest⟩ := Bool.and_eq_true_iff.1 hfree
    obtain ⟨first, s₁, hfirst, h₁⟩ := bind_eq_ok.1 h
    obtain ⟨hs₁, -⟩ := compileStmt_keepsTop hunsigned.1 false hs hfirst
    obtain ⟨_, _, hyields⟩ := compileChunk_spec hs₁.ready h₁
    obtain ⟨more, hmore, hplays⟩ := ih first hs₁ hrest hunsigned.2 h₁
    have hdoes := compileStmt_does hsteps false st hst hunsigned.1 hs hfirst
    refine ⟨first.toList ++ more, by rw [hmore]; simp, fun main pos fuel hcovers hlies => ?_⟩
    rw [evalChunk]
    · obtain ⟨hfront, -⟩ := lieAt_append.1 (hlies fun _ => pos + itemsSize first.toList)
      refine (hdoes main _ pos fuel (hcovers.mono hyields.grows) hfront).exited fun ending => ?_
      have hplace : ending.place (fun _ => pos + itemsSize first.toList)
          (pos + itemsSize first.toList) = pos + itemsSize first.toList := by
        cases ending <;> rfl
      rw [hplace]
      exact hplays main _ fuel hcovers fun exits => (lieAt_append.1 (hlies exits)).2
    · exact hne

/-- A machine that is about to halt does so, unless its stack is too large. -/
theorem Machine.At.halts {main : Routine Value} {ip : Nat} {stack : Array Value} {m : Machine}
    (hm : m.At main ip stack) (hdecoded : decode main.code ip = .ok ⟨.halt, []⟩) :
    (∃ m', Action.step su m = .error (.stackLimit su.settings.maxStackSize) m') ∨
    ∃ m', Action.step su m = .ok true m' ∧ m'.stack = stack ∧ m'.scene = m.scene := by
  have hstep := Action.step_eq hsteps m
  rw [hm.function, hm.ip, hdecoded] at hstep
  split at hstep
  · exact .inl ⟨_, hstep⟩
  · exact .inr ⟨_, hstep, hm.stack, rfl⟩

section
variable {main : Routine Value} {fuel : Nat} {m : Machine} (hlimit : ∀ fuel stack m',
  m.run su fuel ≠ .failed ⟨.stackLimit su.settings.maxStackSize, stack⟩ m')
include hlimit

/-- What has been played to its end is a run that ends in the same way. -/
theorem Meets.finishes {r : EStateM.Result Stop Scene Value} {result : Except Fault Value}
    {σ : Scene} (h : Meets su main fuel (Halting main) m r) (hmain : m.function = main)
    (houtcome : Eval.outcome? r = some (result, σ)) : m.Finishes su σ result := by
  cases r with
  | ok v σ' =>
    cases houtcome
    rcases Comes.run h with ⟨k, stack, m', hrun⟩ | ⟨k, m', -, hm', hrun⟩ | ⟨k, f, m', hf, -⟩
    · exact absurd hrun (hlimit k stack m')
    · obtain ⟨hscene, ip, stack, ⟨hdecoded, hv⟩, hat⟩ := hm'
      rcases hat.halts hsteps hdecoded with ⟨m'', hstep⟩ | ⟨m'', hstep, hstack, hscene'⟩
      · have hlast : m'.run su 1 =
            .failed ⟨.stackLimit su.settings.maxStackSize, m''.callStack⟩ m'' := by
          rw [Machine.run, hstep]
        exact absurd ((hrun 1).trans hlast) (hlimit _ _ _)
      · have hlast : m'.run su 1 = .halted m'' := by rw [Machine.run, hstep]
        refine ⟨k + 1, m'', (hrun 1).trans hlast, ?_, hscene'.trans hscene⟩
        rw [Machine.top?, hstack]
        exact hv
    · exact hf.elim
  | error stop σ' =>
    cases stop with
    | fault f =>
      cases houtcome
      rcases Comes.run h with ⟨k, stack, m', hrun⟩ | ⟨k, m', -, hm', -⟩ | ⟨k, f', m', hf, hrun⟩
      · exact absurd hrun (hlimit k stack m')
      · exact hm'.elim
      · obtain ⟨rfl, hscene, hcalls⟩ := hf
        refine ⟨k, m', ?_, hscene⟩
        rw [hrun, hcalls, hmain]
    | beyond => cases houtcome
    | outOfFuel => cases houtcome

omit hsteps in
/-- Where the evaluation runs out of fuel, the run goes on for as many steps. -/
theorem Meets.outlasts {Q : Value → Nat → Array Value → Prop} {σ : Scene}
    (h : Meets su main fuel Q m (.error .outOfFuel σ)) :
    ∃ k m', fuel ≤ k ∧ m.run su k = .running m' := by
  rcases Comes.run h with ⟨k, stack, m', hrun⟩ | ⟨k, m', hk, -, hrun⟩ | ⟨k, f, m', hf, -⟩
  · exact absurd hrun (hlimit k stack m')
  · exact ⟨k, m', hk, hrun 0⟩
  · exact hf.elim

end

end

namespace Compiler

variable {su : Surroundings} {c c' : Compiler} {p : Program} {range : CodeRange}

theorem compile_plays (hsteps : su.settings.maxSteps = none) (hc : c.Sound)
    (hpools : c.pools.Unsigned) (hunsigned : p.Unsigned) (hfree : p.isFunctionFree = true)
    (h : c.compile p = .ok (range, c')) (fuel : Nat) :
    Plays su c'.main fuel (evalChunk su.host fuel p.statements) range.start #[]
      (Halting c'.main) := by
  obtain ⟨-, -, -, rfl, -⟩ := compile_eq_ok h
  obtain ⟨fragment, row, plan, hchunk, -, -, -, hitems, hplanned, -⟩ := compile_planned hc h
  have htop : TopLevel c.state := ⟨hc, ⟨c.scope, rfl⟩, hpools⟩
  obtain ⟨more, hmore, hplays⟩ := compileChunk_plays hsteps htop hfree hunsigned hchunk
  obtain rfl : fragment.toList = more := hmore
  refine hplays c'.main _ fuel ⟨fun _ _ hv => hv, fun _ _ hn => hn⟩ fun exits => ?_
  rw [hitems]
  exact LieAt.of_decodes hplanned.decodes

theorem compile_stays {host : Array HostFunction} (hhost : ObedientHost builtinsOnly host)
    (hc : c.Sound) (hpools : c.pools.Unsigned) (hunsigned : p.Unsigned)
    (hfree : p.isFunctionFree = true) (h : c.compile p = .ok (range, c')) (fuel : Nat) :
    Eval.Stays (evalChunk host fuel p.statements) Value.Plain := by
  obtain ⟨fragment, s, hchunk, -⟩ := compile_eq_ok h
  exact evalChunk_stays hhost fuel ⟨hc, ⟨c.scope, rfl⟩, hpools⟩ hfree hunsigned hchunk

end Compiler

/-! ## Programs -/

theorem Machine.at_start (main : Routine Value) (offset : Nat) (globals : Globals) (heap : Heap)
    (world : World) : (start main offset globals heap world).At main offset #[] :=
  ⟨rfl, rfl, rfl, rfl⟩

/-- A program that has been read, that defines no functions and that can be compiled is evaluated
exactly as its code is run: where the steps are not limited, the stack does not grow beyond its
limit and the only functions around are builtins, either both finish, with the same value or the
same fault, the same printed text, the same names and the same heap, or neither does. -/
theorem compiled_programs_evaluate (su : Surroundings) (builtins : Array String) (firstId : Nat)
    (earlier : List String) (source : String) (p : Program) (range : CodeRange) (c' : Compiler)
    (globals : Globals) (heap : Heap) (world : World)
    (hread : parse source = .ok p) (hfree : p.isFunctionFree = true)
    (hcompiled : ((Compiler.start builtins firstId).after
      (earlier.filterMap fun text => (parse text).toOption)).compile p = .ok (range, c'))
    (hglobals : globals.Obeys builtinsOnly) (hheap : heap.Obeys builtinsOnly)
    (hhost : ObedientHost builtinsOnly su.host) (hsteps : su.settings.maxSteps = none)
    (hlimit : ∀ fuel stack m, (Machine.start c'.main range.start globals heap world).run su fuel ≠
      .failed ⟨.stackLimit su.settings.maxStackSize, stack⟩ m)
    (result : Except Fault Value) (σ : Scene) :
    (∃ fuel, p.outcome? su.host fuel ⟨globals, heap, world, ""⟩ = some (result, σ)) ↔
      (Machine.start c'.main range.start globals heap world).Finishes su σ result := by
  have hsound := Compiler.sound_after (Compiler.sound_start builtins firstId)
    (earlier.filterMap fun text => (parse text).toOption)
  have hpools := Compiler.unsigned_after (c := Compiler.start builtins firstId)
    (fun x hx => absurd hx (Array.not_mem_empty _)) (filterMap_parse_unsigned earlier)
  have hplays := Compiler.compile_plays hsteps hsound hpools (parse_unsigned hread) hfree hcompiled
  have hstays := Compiler.compile_stays hhost hsound hpools (parse_unsigned hread) hfree hcompiled
  have hmeets := fun fuel => hplays fuel _
    (Machine.at_start c'.main range.start globals heap world)
  constructor
  · rintro ⟨fuel, houtcome⟩
    exact (hmeets fuel).finishes hsteps hlimit rfl houtcome
  · intro hfinishes
    -- an evaluation with more fuel than the run has steps does not run out of it
    obtain ⟨k, r, hrun, hended⟩ := hfinishes.ended
    refine ⟨k, ?_⟩
    have hmeets := hmeets k
    have hstays := hstays k ⟨globals, heap, world, ""⟩ ⟨hglobals, hheap⟩
    have hsame : ∀ result' σ', Eval.outcome? (evalChunk su.host k p.statements
        ⟨globals, heap, world, ""⟩) = some (result', σ') → result' = result ∧ σ' = σ :=
      fun result' σ' houtcome =>
        (hmeets.finishes hsteps hlimit rfl houtcome).unique hfinishes
    unfold Program.outcome?
    change Meets su c'.main k _ _ (evalChunk su.host k p.statements
      ⟨globals, heap, world, ""⟩) at hmeets
    cases hr : evalChunk su.host k p.statements ⟨globals, heap, world, ""⟩ with
    | ok v σ' =>
      rw [hr] at hsame
      obtain ⟨rfl, rfl⟩ := hsame _ _ rfl
      rfl
    | error stop σ' =>
      rw [hr] at hsame hstays hmeets
      cases stop with
      | fault f =>
        obtain ⟨rfl, rfl⟩ := hsame _ _ rfl
        rfl
      | beyond => exact absurd rfl hstays
      | outOfFuel =>
        obtain ⟨k', m', hk, hrunning⟩ := hmeets.outlasts hlimit
        rw [Machine.run_of_ended hrun hended hk] at hrunning
        exact absurd hrunning (hended m')

/-- A loop that is left in its first round, after it has printed a list. -/
def printAndBreak : Program := ⟨[
  .while ⟨1, 1⟩ (.bool ⟨1, 7⟩ true) [
    .print ⟨1, 14⟩ (.list ⟨1, 20⟩ [.nil ⟨1, 21⟩]),
    .break ⟨1, 27⟩],
  .expr ⟨2, 1⟩ (.unary ⟨2, 1⟩ .not (.nil ⟨2, 2⟩))]⟩

/-- The truth value that a chunk halts with. -/
def truthLeft? (chunk : Except CompileError (CodeRange × Compiler)) (fuel : Nat) : Option Bool :=
  match chunk with
  | .error _ => none
  | .ok (range, c) =>
    match (Machine.start c.main range.start .empty .empty (.start 0 0)).run ⟨.standard, #[]⟩ fuel
      with
    | .halted m =>
      match m.top?.getD .nil with
      | .bool b => some b
      | _ => none
    | _ => none

/-- The loop is left and the program ends with a truth value, in the run and so in the
evaluation. -/
theorem compiled_programs_evaluate_break : ∃ range c' fuel σ,
    parse "while true { print [nil]; break }\n!nil" = .ok printAndBreak ∧
      printAndBreak.isFunctionFree = true ∧
      (Compiler.start #[] 0).compile printAndBreak = .ok (range, c') ∧
      (Machine.start c'.main range.start .empty .empty (.start 0 0)).Finishes ⟨.standard, #[]⟩ σ
        (.ok (.bool true)) ∧
      printAndBreak.outcome? #[] fuel ⟨.empty, .empty, .start 0 0, ""⟩ =
        some (.ok (.bool true), σ) := by
  have hread : parse "while true { print [nil]; break }\n!nil" = .ok printAndBreak := by cbv
  have htruth : truthLeft? ((Compiler.start #[] 0).compile printAndBreak) 10 = some true := by
    decide +kernel
  cases hchunk : (Compiler.start #[] 0).compile printAndBreak with
  | error e =>
    rw [hchunk] at htruth
    cases htruth
  | ok found =>
    obtain ⟨range, c'⟩ := found
    rw [hchunk, truthLeft?] at htruth
    split at htruth
    · rename_i m hrun
      split at htruth
      · rename_i b hb
        cases htruth
        have hfinishes : (Machine.start c'.main range.start .empty .empty (.start 0 0)).Finishes
            ⟨.standard, #[]⟩ m.scene (.ok (.bool true)) := ⟨10, m, hrun, hb, rfl⟩
        obtain ⟨fuel, houtcome⟩ := (compiled_programs_evaluate ⟨.standard, #[]⟩ #[] 0 [] _
          printAndBreak range c' .empty .empty (.start 0 0) hread rfl hchunk
          (Globals.obeys_empty _) (Heap.obeys_empty _)
          (fun _ h => absurd h (Array.not_mem_empty _)) rfl (fun fuel stack m' hfails => by
            cases Machine.run_unique hrun hfails (by simp) (by simp)) _ _).2 hfinishes
        exact ⟨range, c', fuel, m.scene, hread, rfl, rfl, hfinishes, houtcome⟩
      · cases htruth
    · cases htruth

end Ember
