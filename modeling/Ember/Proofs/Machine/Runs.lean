import Ember.Proofs.Machine.Steps

/-! What a run comes to. A run that is followed from one place of the code to another takes at least
some number of steps, may fail on the way, and may meet the limit of the stack. -/
namespace Ember
set_option autoImplicit false

namespace Machine

variable {su : Surroundings} {m : Machine} {fuel fuel' : Nat} {r : Outcome}

/-- More steps change nothing about a run that has ended. -/
theorem run_of_ended (h : m.run su fuel = r) (hended : ∀ m', r ≠ .running m')
    (hfuel : fuel ≤ fuel') : m.run su fuel' = r := by
  induction fuel generalizing m fuel' with
  | zero => exact absurd h.symm (hended m)
  | succ fuel ih =>
    obtain ⟨k, rfl⟩ : ∃ k, fuel' = k + 1 := ⟨fuel' - 1, by omega⟩
    rw [run] at h ⊢
    split
    · rename_i m' hstep
      rw [hstep] at h
      exact h
    · rename_i m' hstep
      rw [hstep] at h
      exact ih h (by omega)
    · rename_i fault m' hstep
      rw [hstep] at h
      exact h

/-- A run ends in one way. -/
theorem run_unique {r' : Outcome} (h : m.run su fuel = r) (h' : m.run su fuel' = r')
    (hended : ∀ m', r ≠ .running m') (hended' : ∀ m', r' ≠ .running m') : r = r' := by
  rcases Nat.le_total fuel fuel' with hle | hle
  · rw [← h', run_of_ended h hended hle]
  · rw [← h, run_of_ended h' hended' hle]

theorem run_succ {m₁ : Machine} (h : Action.step su m = .ok false m₁) (k : Nat) :
    m.run su (k + 1) = m₁.run su k := by
  rw [run, h]

/-- A run that still goes on has made its first step. -/
theorem run_succ_eq_running {n : Machine} {k : Nat} (h : m.run su (k + 1) = .running n) :
    ∃ m₁, Action.step su m = .ok false m₁ ∧ m₁.run su k = .running n := by
  rw [run] at h
  split at h
  · cases h
  · rename_i m₁ hstep
    exact ⟨m₁, hstep, h⟩
  · cases h

end Machine

/-- After at least `n` steps `Q` holds, or a step fails as `E` says, or the stack has grown beyond
its limit. -/
inductive Comes (su : Surroundings) (Q : Machine → Prop) (E : Fault → Machine → Prop) :
    Nat → Machine → Prop
  | here {m : Machine} (h : Q m) : Comes su Q E 0 m
  | step {n : Nat} {m m' : Machine} (hstep : Action.step su m = .ok false m')
      (rest : Comes su Q E (n - 1) m') : Comes su Q E n m
  | fails {n : Nat} {m m' : Machine} {fault : Fault} (hstep : Action.step su m = .error fault m')
      (h : E fault m') : Comes su Q E n m
  | overflows {n : Nat} {m m' : Machine}
      (hstep : Action.step su m = .error (.stackLimit su.settings.maxStackSize) m') :
      Comes su Q E n m

namespace Comes

variable {su : Surroundings} {Q R : Machine → Prop} {E F : Fault → Machine → Prop} {n k : Nat}
  {m : Machine}

theorem mono (h : Comes su Q E n m) (hQ : ∀ m', Q m' → R m') (hE : ∀ f m', E f m' → F f m') :
    Comes su R F n m := by
  induction h with
  | here h => exact .here (hQ _ h)
  | step hstep _ ih => exact .step hstep ih
  | fails hstep h => exact .fails hstep (hE _ _ h)
  | overflows hstep => exact .overflows hstep

theorem weaken (h : Comes su Q E n m) (hk : k ≤ n) : Comes su Q E k m := by
  induction h generalizing k with
  | here h =>
    rw [Nat.le_zero.1 hk]
    exact .here h
  | step hstep _ ih => exact .step hstep (ih (Nat.sub_le_sub_right hk 1))
  | fails hstep h => exact .fails hstep h
  | overflows hstep => exact .overflows hstep

/-- A run that goes on from where another one has come. -/
theorem bind (h : Comes su Q E n m) (hR : ∀ m', Q m' → Comes su R E k m') :
    Comes su R E (n + k) m := by
  induction h with
  | here h =>
    rw [Nat.zero_add]
    exact hR _ h
  | step hstep _ ih => exact .step hstep (ih.weaken (by omega))
  | fails hstep h => exact .fails hstep h
  | overflows hstep => exact .overflows hstep

/-- The three ways in which a run that comes to something can go. -/
theorem run (h : Comes su Q E n m) :
    (∃ fuel stack m', m.run su fuel = .failed ⟨.stackLimit su.settings.maxStackSize, stack⟩ m') ∨
    (∃ k m', n ≤ k ∧ Q m' ∧ ∀ fuel, m.run su (k + fuel) = m'.run su fuel) ∨
    ∃ fuel fault m', E fault m' ∧ m.run su fuel = .failed ⟨fault, m'.callStack⟩ m' := by
  induction h with
  | here h => exact .inr (.inl ⟨0, _, Nat.le_refl 0, h, fun fuel => by rw [Nat.zero_add]⟩)
  | step hstep _ ih =>
    rcases ih with ⟨fuel, stack, m', hrun⟩ | ⟨k, m', hk, h, hrun⟩ | ⟨fuel, fault, m', h, hrun⟩
    · refine .inl ⟨fuel + 1, stack, m', ?_⟩
      rw [Machine.run, hstep]
      exact hrun
    · refine .inr (.inl ⟨k + 1, m', by omega, h, fun fuel => ?_⟩)
      rw [show k + 1 + fuel = k + fuel + 1 by omega, Machine.run, hstep]
      exact hrun fuel
    · refine .inr (.inr ⟨fuel + 1, fault, m', h, ?_⟩)
      rw [Machine.run, hstep]
      exact hrun
  | fails hstep h =>
    refine .inr (.inr ⟨1, _, _, h, ?_⟩)
    rw [Machine.run, hstep]
  | @overflows _ _ m' hstep =>
    refine .inl ⟨1, m'.callStack, m', ?_⟩
    rw [Machine.run, hstep]

end Comes

/-! ## One instruction -/

theorem Action.checkLimits_eq {su : Surroundings} (hsteps : su.settings.maxSteps = none)
    (m : Machine) : Action.checkLimits su.settings m =
      if su.settings.maxStackSize < m.stack.size then
        .error (.stackLimit su.settings.maxStackSize) { m with steps := m.steps + 1 }
      else .ok () { m with steps := m.steps + 1 } := by
  unfold Action.checkLimits
  rw [hsteps]
  rfl

/-- A step where the steps are not limited. -/
theorem Action.step_eq {su : Surroundings} (hsteps : su.settings.maxSteps = none) (m : Machine) :
    Action.step su m =
      if su.settings.maxStackSize < m.stack.size then
        .error (.stackLimit su.settings.maxStackSize) { m with steps := m.steps + 1 }
      else match decode m.function.code m.ip with
        | .error e => .error (.undecodable e) { m with steps := m.steps + 1 }
        | .ok ins =>
          let next := { m with steps := m.steps + 1, ip := m.ip + ins.size }
          if ins.op = .halt then .ok true next
          else match Action.execute su m.ip ins next with
            | .ok _ m' => .ok false m'
            | .error fault m' => .error fault m' := by
  have hlimits := Action.checkLimits_eq hsteps m
  by_cases hsize : su.settings.maxStackSize < m.stack.size
  · rw [if_pos hsize] at hlimits ⊢
    show EStateM.bind _ _ m = _
    rw [EStateM.bind, hlimits]
  · rw [if_neg hsize] at hlimits ⊢
    show EStateM.bind _ _ m = _
    rw [EStateM.bind, hlimits]
    show EStateM.bind _ _ { m with steps := m.steps + 1 } = _
    unfold EStateM.bind Action.fetch
    dsimp only
    cases decode m.function.code m.ip with
    | error e => rfl
    | ok ins =>
      dsimp only
      by_cases hhalt : ins.op = .halt
      · rw [if_pos hhalt, if_pos hhalt]
        rfl
      · rw [if_neg hhalt, if_neg hhalt]
        show EStateM.bind _ _ _ = _
        unfold EStateM.bind
        cases Action.execute su m.ip ins
          { m with steps := m.steps + 1, ip := m.ip + ins.size } with
        | ok u m' => rfl
        | error fault m' => rfl

/-- A step that halts changes nothing else. -/
theorem Action.step_eq_halt {su : Surroundings} (hsteps : su.settings.maxSteps = none)
    {m m' : Machine} : Action.step su m = .ok true m' ↔
      m.stack.size ≤ su.settings.maxStackSize ∧ ∃ ins, decode m.function.code m.ip = .ok ins ∧
        ins.op = .halt ∧ m' = { m with steps := m.steps + 1, ip := m.ip + ins.size } := by
  rw [Action.step_eq hsteps m]
  by_cases hsize : su.settings.maxStackSize < m.stack.size
  · rw [if_pos hsize]
    exact ⟨nofun, fun h => absurd h.1 (Nat.not_le_of_lt hsize)⟩
  · rw [if_neg hsize]
    cases decode m.function.code m.ip with
    | error e => exact ⟨nofun, by rintro ⟨-, ins, h, -⟩; cases h⟩
    | ok ins =>
      dsimp only
      by_cases hhalt : ins.op = .halt
      · rw [if_pos hhalt]
        constructor
        · rintro h
          cases h
          exact ⟨Nat.le_of_not_lt hsize, ins, rfl, hhalt, rfl⟩
        · rintro ⟨-, ins', hins, -, rfl⟩
          cases hins
          rfl
      · rw [if_neg hhalt]
        constructor
        · intro h
          split at h <;> cases h
        · rintro ⟨-, ins', hins, hhalt', -⟩
          cases hins
          exact absurd hhalt' hhalt

/-- Where the steps are not limited, a step executes the next instruction or meets the limit of the
stack. -/
theorem Comes.execute {su : Surroundings} {Q : Machine → Prop} {E : Fault → Machine → Prop}
    {m : Machine} {ins : Instruction} (hsteps : su.settings.maxSteps = none)
    (hdecoded : decode m.function.code m.ip = .ok ins) (hhalt : ins.op ≠ .halt)
    (h : Action.Ends (Action.execute su m.ip ins)
      { m with steps := m.steps + 1, ip := m.ip + ins.size } (fun _ m' => Q m') E) :
    Comes su Q E 1 m := by
  have hstep := Action.step_eq hsteps m
  rw [hdecoded] at hstep
  dsimp only at hstep
  rw [if_neg hhalt] at hstep
  by_cases hsize : su.settings.maxStackSize < m.stack.size
  · rw [if_pos hsize] at hstep
    exact .overflows hstep
  · rw [if_neg hsize] at hstep
    unfold Action.Ends at h
    split at h
    · rename_i u m' hexecute
      rw [hexecute] at hstep
      exact .step hstep (.here h)
    · rename_i fault m' hexecute
      rw [hexecute] at hstep
      exact .fails hstep h

end Ember
