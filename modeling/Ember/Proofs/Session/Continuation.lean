import Ember.Proofs.Compile.Splits
import Ember.Proofs.Machine.Twins
import Ember.Proofs.Session.Capture

/-! Runs of two chunks and of both in one. The machine that runs both in one chunk is a twin of the
one that runs the first chunk. Where that one halts, it drops the value that is left, and from then
on it is a twin of the machine that runs the second chunk. -/
namespace Ember
set_option autoImplicit false

/-! ## Runs of one chunk -/

/-- Compiled functions are sound. -/
theorem Bound.sound {L : Ledger} {v : Value} (h : Bound L v) : SoundValue v := by
  cases h with
  | plain h => exact .plain h
  | function hg hbare => exact .function hg.verifyCode_eq_ok hg.disciplined hbare
  | closure hg hcells _ => exact .closure hg.verifyCode_eq_ok hg.disciplined hcells

theorem lenient_soundness : soundness.Lenient where
  plain _ h := .plain h
  function _ hg hbare := .function hg.verifyCode_eq_ok hg.disciplined hbare
  closure _ _ _ hg hcells _ := .closure hg.verifyCode_eq_ok hg.disciplined hcells

theorem DiscreetHost.sound {host : Array HostFunction} (h : DiscreetHost host) :
    SoundHost host := by
  intro f hf args s hargs hheap
  obtain ⟨hvalue, hkept⟩ := h f hf soundness lenient_soundness args s hargs hheap
  exact ⟨hvalue, hkept.obeys⟩

/-- The machine runs a row of instructions of the main function. -/
structure Machine.Underway (main : Routine Value) (start : Nat) (row : List Instruction)
    (m : Machine) : Prop where
  foreseen : m.Foreseen main ⟨start, start + rowSize row⟩
  tracked : ∃ L, Tracks L m

theorem Moment.Tracked.underway {s : Session} {chunks : List CodeRange} {L : Ledger}
    (h : Moment.Tracked ⟨s, chunks, none, L⟩) {start : Nat} {row : List Instruction} {plan : Plan}
    (hplanned : Planned s.main start row plan) (world : World) :
    (Machine.start s.main start s.globals s.heap world).Underway s.main start row := by
  have hstore : Store L s.heap s.globals := h.state
  have hglobals : s.globals.Obeys soundness := hstore.globals.imp fun _ hv => Bound.sound hv
  have hheap : s.heap.Obeys soundness := hstore.heap.imp fun _ hv => Bound.sound hv
  refine ⟨foreseen_start world (Compiler.kind_main h.compiler) ?_ ?_ hglobals hheap, _,
    hstore.launch h.compiler hplanned world⟩
  · exact hplanned.verifyCode_eq_ok fun g hg => (h.compiler.compiled hg).verifyCode_eq_ok
  · exact hplanned.disciplined h.compiler.constant fun g hg => (h.compiler.compiled hg).disciplined

namespace Machine.Underway

variable {main : Routine Value} {start : Nat} {row : List Instruction} {plan : Plan}
  {m m' : Machine} {su : Surroundings}

theorem step (hmain : main.scope.kind = .topLevel) (hhost : DiscreetHost su.host)
    (h : m.Underway main start row) (hstep : Action.step su m = .ok false m') :
    m'.Underway main start row := by
  have hnext := h.foreseen.step hmain hhost.sound
  obtain ⟨L, htracks⟩ := h.tracked
  obtain ⟨frame, a, ins, -, -, -, hends⟩ := htracks.step hhost
  unfold Action.Ends at hnext hends
  rw [hstep] at hnext hends
  exact ⟨hnext rfl, _, hends.1⟩

/-- Outside of functions the stack has the shape that the plan gives. -/
theorem shape (hplanned : Planned main start row plan) (h : m.Underway main start row)
    {frame : Frame} (hframes : m.frames = #[frame]) :
    ∃ s, plan.shapeFrom start m.ip = some s ∧ s.height = m.stack.size - frame.base := by
  obtain ⟨last, callers, hlast, -, hplaced, hawaits⟩ := h.foreseen.calls
  have hpush : callers.push last = #[].push frame := hlast.symm.trans hframes
  obtain ⟨rfl, rfl⟩ := Array.push_eq_push.1 hpush
  have hrecorded := hplaced.recorded
  rw [show last.function = main from hawaits] at hrecorded
  exact Option.map_eq_some_iff.1 (eq_of_recordedHeight hplanned.agree hrecorded)

/-- Only outside of functions does the code halt. -/
theorem halts (h : m.Underway main start row) {ins : Instruction}
    (hdecoded : decode m.function.code m.ip = .ok ins) (hhalt : ins.op = .halt) :
    m.frames.size = 1 := by
  obtain ⟨L, htracks⟩ := h.tracked
  obtain ⟨frame, callers, older, a, ins', s, s', vals, gathered, hdecoded', henacts⟩ :=
    htracks.enacts
  cases hdecoded.symm.trans hdecoded'
  have hplace := henacts.stands.admits.place
  rw [hhalt] at hplace
  have hframes : m.frames = callers.push frame := henacts.frames
  rw [hframes, Array.size_push, Nat.add_eq_right]
  by_contra hne
  obtain ⟨k, hk⟩ := Nat.exists_eq_succ_of_ne_zero hne
  have hkind := henacts.calls.inner k frame (by rw [← Nat.succ_eq_add_one, ← hk]; simp)
  rw [hkind] at hplace
  cases hplace

end Machine.Underway

/-! ## The code of twins -/

/-- The second main function has all that is in the tables of the first one. -/
structure Link.Tables (k : Link) : Prop where
  constants : ∀ (i : Nat) (v : Value), k.main.constants[i]? = some v →
    k.main'.constants[i]? = some v
  names : ∀ (i : Nat) (n : String), k.main.names[i]? = some n → k.main'.names[i]? = some n

theorem Link.Tables.of_grows {k : Link} {c c' : Compiler} (hmain : k.main = c.main)
    (hmain' : k.main' = c'.main) (h : Grows c.state c'.state) : k.Tables := by
  constructor
  · rw [hmain, hmain']
    exact h.constants
  · rw [hmain, hmain']
    exact h.names

section
variable {k : Link} {start' pos' : Nat} {row : List Instruction} {plan : Plan} {s : Shape}

/-- Twins on planned code meet wherever the second main function has the instruction, too. -/
theorem Link.Tables.meets (htables : k.Tables)
    (hplanned : Planned k.main (start' + k.shift) row plan)
    (hs : plan.shapeFrom (start' + k.shift) (pos' + k.shift) = some s) :
    ∃ front ins back, row = front ++ ins :: back ∧ pos' = start' + rowSize front ∧
      decode k.main.code (pos' + k.shift) = .ok ins ∧
      (decode k.main'.code pos' = .ok ins → k.Meets (pos' + k.shift) pos') := by
  obtain ⟨front, ins, back, s', hrow, hpos, hadmits, -, hjump⟩ := hplanned.item hs
  have hdecodes := hplanned.decodes
  rw [hrow] at hdecodes
  have hdecoded := hdecodes.decode_eq
  rw [← hpos] at hdecoded
  have hpos' : pos' = start' + rowSize front := by omega
  refine ⟨front, ins, back, hrow, hpos', hdecoded, fun hdecoded' => ⟨ins, hdecoded, hdecoded',
    (Instruction.decode_eq_ok hdecoded).2.2.2, fun hreads f f' hcode => ?_,
    fun hreads f f' hcode => ?_, fun hj => ?_⟩⟩
  · obtain ⟨v, hv⟩ := exists_constant hadmits.operands hreads
    rw [hcode.1, hcode.2, hv, htables.constants _ _ hv]
  · obtain ⟨n, hn⟩ := exists_name hadmits.operands hreads
    rw [hcode.1, hcode.2, hn, htables.names _ _ hn]
  · -- the distance of a jump does not depend on where it stands
    obtain ⟨t, ht, -⟩ := hjump hj
    rw [hpos, hpos', Instruction.target?_add ht, Instruction.target?_add ht]
    show start' + k.shift + t = start' + t + k.shift
    omega

end

/-- An instruction of a row that has one more is the last one, or one of the others. -/
theorem eq_or_mem_of_append_singleton {α : Type} {row front back : List α} {last x : α}
    (h : row ++ [last] = front ++ x :: back) :
    (front = row ∧ x = last) ∨ ∃ back', row = front ++ x :: back' := by
  rcases List.eq_nil_or_concat back with rfl | ⟨back', y, rfl⟩
  · obtain ⟨hrow, hlast⟩ := List.append_inj' h rfl
    exact .inl ⟨hrow.symm, (List.cons.inj hlast).1.symm⟩
  · rw [List.concat_eq_append, ← List.cons_append, ← List.append_assoc] at h
    exact .inr ⟨back', (List.append_inj' h rfl).1⟩

/-! ## Runs of twins -/

section
variable {k : Link} {start' : Nat} {row rest : List Instruction} {plan : Plan} {a b a' : Machine}
  {su : Surroundings}

/-- Outside of functions the plan says where the first of the twins is. -/
theorem Machine.Twin.shape (h : Machine.Twin k 0 a b)
    (hplanned : Planned k.main (start' + k.shift) row plan)
    (hunderway : a.Underway k.main (start' + k.shift) row) :
    ∃ s, plan.shapeFrom (start' + k.shift) (b.ip + k.shift) = some s ∧
      s.height = a.stack.size := by
  obtain ⟨f, f', hframes, -, htwin⟩ := h.frames.bottom
  obtain ⟨s, hs, hheight⟩ := hunderway.shape hplanned hframes
  rw [(htwin.bottom rfl).2.2, Nat.sub_zero] at hheight
  rw [show a.ip = b.ip + k.shift from h.place] at hs
  exact ⟨s, hs, hheight⟩

/-- What the twins execute next, if it is not in a function. -/
theorem Machine.Twin.meets (htables : k.Tables) (h : Machine.Twin k 0 a b)
    (hplanned : Planned k.main (start' + k.shift) row plan)
    (hunderway : a.Underway k.main (start' + k.shift) row) :
    ∃ front ins back, row = front ++ ins :: back ∧ b.ip = start' + rowSize front ∧
      decode a.function.code a.ip = .ok ins ∧
      (decode k.main'.code b.ip = .ok ins → k.Meets a.ip b.ip) := by
  obtain ⟨s, hs, -⟩ := h.shape hplanned hunderway
  rw [h.code.1, show a.ip = b.ip + k.shift from h.place]
  exact htables.meets hplanned hs

variable (hmain : k.main.scope.kind = .topLevel) (hhost : DiscreetHost su.host)
  (hpatient : PatientHost su.host) (hsteps : su.settings.maxSteps = none) (htables : k.Tables)
include hmain hhost hpatient hsteps htables

/-- Twins on the same row do the same. -/
theorem Machine.Twins.run (hplanned : Planned k.main (start' + k.shift) row plan)
    (hdecodes : Decodes k.main'.code start' row) (h : Machine.Twins k a b)
    (hunderway : a.Underway k.main (start' + k.shift) row) (fuel : Nat) :
    (a.run su fuel).Twin k (b.run su fuel) := by
  induction fuel generalizing a b with
  | zero => exact h
  | succ fuel ih =>
    obtain ⟨depth, h⟩ := h
    have hmeets : depth = 0 → k.Meets a.ip b.ip := by
      rintro rfl
      obtain ⟨front, ins, back, hrow, hip, -, hmeets⟩ := h.meets htables hplanned hunderway
      rw [hrow] at hdecodes
      exact hmeets (hip ▸ hdecodes.decode_eq)
    have hstep := h.step hpatient hsteps hmeets
    rw [Machine.run, Machine.run]
    split at hstep
    · rename_i halted a' halted' b' ha hb
      obtain ⟨rfl, htwins⟩ := hstep
      rw [ha, hb]
      cases halted' with
      | true => exact htwins
      | false => exact ih htwins (hunderway.step hmain hhost ha)
    · rename_i fault a' fault' b' ha hb
      obtain ⟨rfl, htwins⟩ := hstep
      rw [ha, hb]
      refine ⟨?_, htwins⟩
      rw [htwins.callStack]
    · exact hstep.elim

/-- Where the first of the twins halts at the end of the row, the second one has come to the same
place, and goes on from there. -/
theorem Machine.Twins.run_halted
    (hplanned : Planned k.main (start' + k.shift) (row ++ [⟨.halt, []⟩]) plan)
    (hdecodes : Decodes k.main'.code start' (row ++ rest)) (h : Machine.Twins k a b)
    (hunderway : a.Underway k.main (start' + k.shift) (row ++ [⟨.halt, []⟩])) {fuel : Nat}
    (hrun : a.run su fuel = .halted a') :
    ∃ n a₀ b₀, (∀ more, b.run su (n + more) = b₀.run su more) ∧ Machine.Twin k 0 a₀ b₀ ∧
      a₀.Underway k.main (start' + k.shift) (row ++ [⟨.halt, []⟩]) ∧
      Action.step su a₀ = .ok true a' := by
  induction fuel generalizing a b with
  | zero => cases hrun
  | succ fuel ih =>
    obtain ⟨depth, h⟩ := h
    rw [Machine.run] at hrun
    cases hstep : Action.step su a with
    | error fault a₁ =>
      rw [hstep] at hrun
      cases hrun
    | ok halted a₁ =>
      rw [hstep] at hrun
      cases halted with
      | true =>
        cases hrun
        obtain ⟨-, ins, hdecoded, hhalt, -⟩ := (Action.step_eq_halt hsteps).1 hstep
        -- in functions there is no `HALT`
        have hsize := h.frames.size.1
        rw [hunderway.halts hdecoded hhalt] at hsize
        obtain rfl : depth = 0 := by omega
        exact ⟨0, a, b, fun more => by rw [Nat.zero_add], h, hunderway, hstep⟩
      | false =>
        have hmeets : depth = 0 → k.Meets a.ip b.ip := by
          rintro rfl
          obtain ⟨front, ins, back, hrow, hip, hdecoded, hmeets⟩ :=
            h.meets htables hplanned hunderway
          rcases eq_or_mem_of_append_singleton hrow with ⟨-, rfl⟩ | ⟨back', hrow⟩
          · -- at the end of the row the first machine would have halted
            rw [Action.step_eq hsteps, hdecoded] at hstep
            split at hstep <;> cases hstep
          · rw [hrow, List.append_assoc, List.cons_append] at hdecodes
            exact hmeets (hip ▸ hdecodes.decode_eq)
        have hnext := h.step hpatient hsteps hmeets
        rw [hstep] at hnext
        cases hb : Action.step su b with
        | error fault b₁ =>
          rw [hb] at hnext
          exact hnext.elim
        | ok halted b₁ =>
          rw [hb] at hnext
          obtain ⟨rfl, htwins⟩ := hnext
          obtain ⟨n, a₀, b₀, hreach, hrest⟩ := ih htwins (hunderway.step hmain hhost hstep) hrun
          refine ⟨n + 1, a₀, b₀, fun more => ?_, hrest⟩
          rw [Nat.add_right_comm, Machine.run, hb]
          exact hreach more

end

/-! ## From one chunk to the next -/

/-- The machine is about to run code of the main function with an empty stack. -/
structure Machine.Fresh (main : Routine Value) (m : Machine) : Prop where
  function : m.function = main
  stack : m.stack = #[]
  frames : ∃ f : Frame, m.frames = #[f] ∧ f.function = main ∧ f.cells = #[] ∧ f.locals = #[] ∧
    f.base = 0
  going : m.world.cancelled = false

theorem Machine.fresh_start {main : Routine Value} (hlocals : main.localCount = 0) (pos : Nat)
    (globals : Globals) (heap : Heap) {world : World} (hgoing : world.cancelled = false) :
    (Machine.start main pos globals heap world).Fresh main := by
  refine ⟨rfl, rfl, ⟨_, rfl, rfl, rfl, ?_, rfl⟩, hgoing⟩
  rw [hlocals]
  rfl

section
variable {k : Link} {a b a' : Machine} {su : Surroundings} {rest : List Instruction}

/-- A run that begins where a fresh machine is makes twins of both. -/
theorem Machine.Fresh.twin (h : b.Fresh k.main') (hlocals : k.main.localCount = 0)
    (houtput : b.output = k.printed) :
    Machine.Twin k 0 (.start k.main (b.ip + k.shift) b.globals b.heap b.world) b := by
  obtain ⟨f, hframes, hf, hcells, hslots, hbase⟩ := h.frames
  have hempty : (Frame.new k.main 0 k.main.localCount).locals = #[] := by
    rw [hlocals]
    rfl
  refine ⟨h.stack, rfl, rfl, rfl, h.going, ?_, ?_, rfl, ?_, rfl⟩
  · rw [houtput]
    exact (String.append_empty).symm
  · rw [hframes]
    refine .outermost ⟨⟨rfl, hf⟩, hcells, hbase, ?_, nofun, fun _ => ⟨rfl, hempty, rfl⟩⟩
    rw [hempty, hslots]
  · rw [hframes, h.function]
    exact congrArg some hf

theorem Machine.Twin.fresh (h : Machine.Twin k 0 a b) (pos steps : Nat) :
    { b with stack := #[], ip := pos, steps }.Fresh k.main' := by
  obtain ⟨f, f', hframes, hframes', htwin⟩ := h.frames.bottom
  obtain ⟨hcells, hlocals, hbase⟩ := htwin.bottom rfl
  refine ⟨h.code.2, rfl, ⟨f', hframes', htwin.function.2, ?_, ?_, ?_⟩, ?_⟩
  · rw [htwin.cells, hcells]
  · rw [htwin.locals, hlocals]
  · rw [htwin.base, hbase]
  · show b.world.cancelled = false
    rw [h.world]
    exact h.going

/-- One value is dropped. -/
theorem Action.step_popTop (hsteps : su.settings.maxSteps = none) {m : Machine} {st : Array Value}
    {v : Value} (hdecoded : decode m.function.code m.ip = .ok ⟨.popTop, []⟩)
    (hstack : m.stack = st.push v) (hsize : m.stack.size ≤ su.settings.maxStackSize) :
    Action.step su m = .ok false { m with stack := st, ip := m.ip + 1, steps := m.steps + 1 } := by
  have hpop : Action.execute su m.ip ⟨.popTop, []⟩ { m with ip := m.ip + 1, steps := m.steps + 1 } =
      .ok () { m with stack := st, ip := m.ip + 1, steps := m.steps + 1 } := by
    show EStateM.bind Action.pop _ _ = _
    unfold EStateM.bind Action.pop
    dsimp only
    rw [hstack, Array.back?_push]
    dsimp only
    rw [Array.pop_push]
    rfl
  rw [Action.step_eq hsteps, if_neg (Nat.not_lt_of_le hsize), hdecoded]
  dsimp only
  rw [if_neg nofun, show Instruction.size ⟨.popTop, []⟩ = 1 from rfl, hpop]

/-- Values are dropped until the stack is empty. -/
theorem Machine.run_drops (hsteps : su.settings.maxSteps = none) {m : Machine} {count : Nat}
    (hcount : m.stack.size = count)
    (hdecodes : Decodes m.function.code m.ip (List.replicate count ⟨.popTop, []⟩ ++ rest))
    (hsize : count ≤ su.settings.maxStackSize) :
    ∃ n steps, ∀ more, m.run su (n + more) =
      { m with stack := #[], ip := m.ip + count, steps }.run su more := by
  induction count generalizing m with
  | zero =>
    refine ⟨0, m.steps, fun more => ?_⟩
    rw [Nat.zero_add, Nat.add_zero, ← Array.size_eq_zero_iff.1 hcount]
  | succ count ih =>
    obtain ⟨st, v, hstack⟩ := Array.exists_push_of_size_eq_add_one hcount
    have hst : st.size = count := by
      rw [hstack, Array.size_push] at hcount
      omega
    have hstep := Action.step_popTop hsteps hdecodes.1 hstack (hcount ▸ hsize)
    obtain ⟨n, steps, hrun⟩ := ih
      (m := { m with stack := st, ip := m.ip + 1, steps := m.steps + 1 }) hst hdecodes.2 (by omega)
    refine ⟨n + 1, steps, fun more => ?_⟩
    rw [Nat.add_right_comm, Machine.run, hstep]
    dsimp only
    rw [hrun more, Nat.add_assoc, Nat.add_comm 1 count]

end

theorem valuesLeft_le_one (statements : List Stmt) : valuesLeft statements ≤ 1 := by
  fun_induction valuesLeft statements with
  | case1 => omega
  | case2 => omega
  | case3 _ _ _ ih => exact ih

section
variable {k : Link} {start' count : Nat} {row rest : List Instruction} {plan : Plan}
  {a b a' : Machine} {su : Surroundings}

/-- Where the first of the twins halts, the row ends, and the stack is as the plan says. -/
theorem Machine.Twin.halted (htables : k.Tables) (hsteps : su.settings.maxSteps = none)
    (h : Machine.Twin k 0 a b)
    (hplanned : Planned k.main (start' + k.shift) (row ++ [⟨.halt, []⟩]) plan)
    (hlasting : ∀ ins ∈ row, ins.op ≠ .halt)
    (hleft : plan.shapeFrom (start' + k.shift) (start' + k.shift + rowSize row) =
      some (.values count))
    (hunderway : a.Underway k.main (start' + k.shift) (row ++ [⟨.halt, []⟩]))
    (hstep : Action.step su a = .ok true a') :
    b.ip = start' + rowSize row ∧ a.stack.size = count ∧ count ≤ su.settings.maxStackSize ∧
      a' = { a with ip := a'.ip, steps := a'.steps } := by
  obtain ⟨hsize, ins, hdecoded, hhalt, rfl⟩ := (Action.step_eq_halt hsteps).1 hstep
  obtain ⟨front, ins', back, hrow, hip, hdecoded', -⟩ := h.meets htables hplanned hunderway
  cases hdecoded.symm.trans hdecoded'
  obtain rfl : front = row := by
    rcases eq_or_mem_of_append_singleton hrow with ⟨hfront, -⟩ | ⟨back', hrow⟩
    · exact hfront
    · exact absurd hhalt (hlasting ins (by rw [hrow]; simp))
  obtain ⟨s, hs, hheight⟩ := h.shape hplanned hunderway
  rw [hip, Nat.add_right_comm, hleft] at hs
  cases hs
  have hcount : a.stack.size = count := hheight.symm
  exact ⟨hip, hcount, hcount ▸ hsize, rfl⟩

end

section
variable {first : List Stmt} {main₁ main₂ main : Routine Value} {r₁ r₂ r : CodeRange}
  {row₁ row₂ : List Instruction} {plan₁ plan₂ : Plan}

/-- The code of the second chunk lies further on by what the first one needs to halt. -/
theorem Compiler.Split.start_second
    (h : Compiler.Split first main₁ main₂ main r₁ r₂ r row₁ row₂ plan₁ plan₂) :
    r₂.start = r.start + rowSize row₁ + valuesLeft first + (1 - valuesLeft first) := by
  have hle := valuesLeft_le_one first
  have hhalt : rowSize [⟨.halt, []⟩] = 1 := rfl
  rw [h.behind, h.stop₁, h.start, rowSize_append, hhalt]
  omega

theorem Compiler.Split.decodes_second
    (h : Compiler.Split first main₁ main₂ main r₁ r₂ r row₁ row₂ plan₁ plan₂) :
    Decodes main.code (r.start + rowSize row₁ + valuesLeft first) (row₂ ++ [⟨.halt, []⟩]) := by
  have hdrops : rowSize (drops first) = valuesLeft first := by
    rw [drops, rowSize, List.map_replicate, List.sum_replicate_nat]
    exact Nat.mul_one _
  have hdecodes := h.decodes.right.right
  rwa [hdrops] at hdecodes

end

section
variable {first : List Stmt} {c₁ c₂ c : Compiler} {r₁ r₂ r : CodeRange}
  {row₁ row₂ : List Instruction} {plan₁ plan₂ : Plan} {su : Surroundings}
  (hhost : DiscreetHost su.host) (hpatient : PatientHost su.host)
  (hsteps : su.settings.maxSteps = none)
include hhost hpatient hsteps

/-- When the first chunk has halted, the run of both in one has come to where it is a twin of the
run of the second chunk. -/
theorem Compiler.Split.continues
    (h : Compiler.Split first c₁.main c₂.main c.main r₁ r₂ r row₁ row₂ plan₁ plan₂)
    (hc₁ : c₁.Sound) (hname₁ : c.main.name = c₁.main.name) (hname₂ : c.main.name = c₂.main.name)
    (htables : Link.Tables ⟨c₁.main, c.main, 0, "", hname₁⟩) {globals : Globals} {heap : Heap}
    {world : World} (hgoing : world.cancelled = false)
    (hunderway : (Machine.start c₁.main r₁.start globals heap world).Underway c₁.main r₁.start
      (row₁ ++ [⟨.halt, []⟩])) {fuel : Nat} {a : Machine}
    (hrun : (Machine.start c₁.main r₁.start globals heap world).run su fuel = .halted a) :
    a.world.cancelled = false ∧ ∃ n b,
      (∀ more, (Machine.start c.main r.start globals heap world).run su (n + more) =
        b.run su more) ∧
      Machine.Twin ⟨c₂.main, c.main, 1 - valuesLeft first, a.output, hname₂⟩ 0
        (.start c₂.main r₂.start a.globals a.heap a.world) b := by
  rw [← h.start] at hunderway hrun
  have hplanned := h.planned₁
  have hleft := h.left
  rw [← h.start] at hplanned hleft
  have hfresh : (Machine.start c.main r.start globals heap world).Fresh c.main :=
    Machine.fresh_start rfl r.start globals heap hgoing
  have htwins : Machine.Twins ⟨c₁.main, c.main, 0, "", hname₁⟩ _ _ := ⟨0, hfresh.twin rfl rfl⟩
  obtain ⟨n, a₀, b₀, hreach, htwin, hunderway, hstep⟩ := htwins.run_halted
    (Compiler.kind_main hc₁) hhost hpatient hsteps htables hplanned h.decodes hunderway hrun
  obtain ⟨hip, hcount, hsize, ha⟩ :=
    htwin.halted htables hsteps hplanned h.lasting hleft hunderway hstep
  have hdecodes := h.decodes.right
  rw [← hip, drops, ← show b₀.function = c.main from htwin.code.2] at hdecodes
  obtain ⟨n', steps, hdrops⟩ := Machine.run_drops hsteps (htwin.stack ▸ hcount) hdecodes hsize
  have hglobals : b₀.globals = a.globals := htwin.globals.trans (by rw [ha])
  have hheap : b₀.heap = a.heap := htwin.heap.trans (by rw [ha])
  have hworld : b₀.world = a.world := htwin.world.trans (by rw [ha])
  have houtput : b₀.output = a.output := by
    rw [htwin.output, ha]
    exact String.empty_append
  have hstart := h.start_second
  rw [← hip] at hstart
  refine ⟨?_, n + n', { b₀ with stack := #[], ip := b₀.ip + valuesLeft first, steps },
    fun more => by rw [Nat.add_assoc, hreach, hdrops], ?_⟩
  · rw [← hworld, htwin.world]
    exact htwin.going
  · rw [hstart, ← hglobals, ← hheap, ← hworld]
    exact (htwin.fresh _ steps).twin (k := ⟨c₂.main, c.main, _, _, hname₂⟩) rfl houtput

end

end Ember
