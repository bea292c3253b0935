import Ember.Proofs.Evaluation.Evaluator
import Ember.Proofs.Machine.Runs

/-! Code that plays an evaluation. From a place of the top level the machine goes to where the value
of the evaluation says, with the scene that the evaluation leaves; it fails where the evaluation
fails, and goes on for long where the evaluation runs out of fuel. Each instruction plays the
evaluation of one construct. -/
namespace Ember
set_option autoImplicit false

def Machine.scene (m : Machine) : Scene := ⟨m.globals, m.heap, m.world, m.output⟩

/-- The machine is at a place of the top level. -/
structure Machine.At (main : Routine Value) (ip : Nat) (stack : Array Value) (m : Machine) :
    Prop where
  function : m.function = main
  ip : m.ip = ip
  stack : m.stack = stack
  calls : m.callStack = [main.name]

section
variable (su : Surroundings) (main : Routine Value) (fuel : Nat) {α : Type}

/-- The run from `m` has the result of an evaluation; `Q` says where it leaves the machine. -/
def Meets (Q : α → Nat → Array Value → Prop) (m : Machine) : EStateM.Result Stop Scene α → Prop
  | .ok a σ => Comes su
      (fun m' => m'.scene = σ ∧ ∃ ip stack, Q a ip stack ∧ m'.At main ip stack)
      (fun _ _ => False) 0 m
  | .error (.fault f) σ => Comes su (fun _ => False)
      (fun fault m' => fault = f ∧ m'.scene = σ ∧ m'.callStack = [main.name]) 0 m
  | .error .beyond _ => True
  | .error .outOfFuel _ => Comes su (fun _ => True) (fun _ _ => False) fuel m

/-- The code at a place plays the evaluation. -/
def Plays (x : Eval α) (pos : Nat) (st : Array Value) (Q : α → Nat → Array Value → Prop) : Prop :=
  ∀ m : Machine, m.At main pos st → Meets su main fuel Q m (x m.scene)

/-- The instruction has done what the evaluation does. -/
def Lands (x : Eval α) (Q : α → Nat → Array Value → Prop) (m m' : Machine) : Prop :=
  ∃ a, x m.scene = .ok a m'.scene ∧ Q a m'.ip m'.stack ∧ m'.function = main ∧
    m'.callStack = [main.name]

/-- The instruction has failed as the evaluation does. -/
def Trips (x : Eval α) (m : Machine) (f : Fault) (m' : Machine) : Prop :=
  x m.scene = .error (.fault f) m'.scene ∧ m'.callStack = [main.name]

end

/-- The run goes on at `next`, with a value pushed. -/
def Pushing (next : Nat) (st : Array Value) (v : Value) (ip : Nat) (stack : Array Value) : Prop :=
  ip = next ∧ stack = st.push v

/-- The run goes on at `next`. -/
def Leaving (next : Nat) (st : Array Value) (_ : Unit) (ip : Nat) (stack : Array Value) : Prop :=
  ip = next ∧ stack = st

section
variable {su : Surroundings} {main : Routine Value} {fuel : Nat} {α β : Type} {x : Eval α}
  {pos next : Nat} {st : Array Value} {Q : α → Nat → Array Value → Prop}
  {R : β → Nat → Array Value → Prop}

/-! ## Evaluations one after the other -/

theorem Comes.absurd {n k : Nat} {m : Machine} {P : Machine → Prop} {E : Fault → Machine → Prop}
    (h : Comes su (fun _ => False) (fun _ _ => False) n m) : Comes su P E k m := by
  induction h generalizing k with
  | here h => exact h.elim
  | step hstep _ ih => exact .step hstep ih
  | fails _ h => exact h.elim
  | overflows hstep => exact .overflows hstep

theorem Meets.after {n : Nat} {m : Machine} {P : Machine → Prop}
    {r : EStateM.Result Stop Scene α} (h : Comes su P (fun _ _ => False) n m)
    (hnext : ∀ m', P m' → Meets su main fuel Q m' r) : Meets su main (n + fuel) Q m r := by
  cases r with
  | ok a σ => exact (h.bind hnext).weaken (Nat.zero_le _)
  | error stop σ =>
    cases stop with
    | fault f =>
      exact ((h.mono (fun _ h => h) fun _ _ h => h.elim).bind hnext).weaken (Nat.zero_le _)
    | beyond => trivial
    | outOfFuel => exact h.bind hnext

theorem Meets.weaken {k : Nat} {m : Machine} {r : EStateM.Result Stop Scene α}
    (h : Meets su main fuel Q m r) (hk : k ≤ fuel) : Meets su main k Q m r := by
  cases r with
  | ok a σ => exact h
  | error stop σ =>
    cases stop with
    | fault f => exact h
    | beyond => trivial
    | outOfFuel => exact Comes.weaken h hk

theorem Plays.weaken {k : Nat} (h : Plays su main fuel x pos st Q) (hk : k ≤ fuel) :
    Plays su main k x pos st Q :=
  fun m hm => (h m hm).weaken hk

theorem Plays.done {a : α} (h : Q a pos st) : Plays su main fuel (pure a) pos st Q :=
  fun _ hm => .here ⟨rfl, pos, st, h, hm⟩

theorem Plays.bind {f : α → Eval β} (hx : Plays su main fuel x pos st Q)
    (hf : ∀ a ip stack, Q a ip stack → Plays su main fuel (f a) ip stack R) :
    Plays su main fuel (x >>= f) pos st R := by
  intro m hm
  have h := hx m hm
  show Meets su main fuel R m (EStateM.bind x f m.scene)
  unfold EStateM.bind
  cases hr : x m.scene with
  | ok a σ =>
    rw [hr] at h
    rw [← Nat.zero_add fuel]
    refine Meets.after h ?_
    rintro m' ⟨rfl, ip, stack, hQ, hat⟩
    exact hf a ip stack hQ m' hat
  | error stop σ =>
    rw [hr] at h
    cases stop <;> exact h

theorem Plays.pushed {x : Eval Value} {f : Value → Eval β} {st' : Array Value}
    (hx : Plays su main fuel x pos st (Pushing next st'))
    (hf : ∀ v, Plays su main fuel (f v) next (st'.push v) R) :
    Plays su main fuel (x >>= f) pos st R := by
  refine hx.bind fun v ip stack h => ?_
  rw [h.1, h.2]
  exact hf v

theorem Plays.left {x : Eval Unit} {f : Unit → Eval β} {st' : Array Value}
    (hx : Plays su main fuel x pos st (Leaving next st'))
    (hf : Plays su main fuel (f ()) next st' R) : Plays su main fuel (x >>= f) pos st R := by
  refine hx.bind fun u ip stack h => ?_
  rw [h.1, h.2]
  exact hf

/-- Code that does nothing, and then an evaluation. -/
theorem Plays.skip {st' : Array Value}
    (hskip : Plays su main fuel (pure ()) pos st (Leaving next st'))
    (h : Plays su main fuel x next st' Q) : Plays su main fuel x pos st Q := by
  have := hskip.left (f := fun _ => x) h
  rwa [pure_bind] at this

theorem Plays.mono {Q' : α → Nat → Array Value → Prop} (h : Plays su main fuel x pos st Q)
    (hQ : ∀ a ip stack, Q a ip stack → Q' a ip stack) : Plays su main fuel x pos st Q' := by
  intro m hm
  have := h m hm
  cases hr : x m.scene with
  | ok a σ =>
    rw [hr] at this
    refine Comes.mono this ?_ fun _ _ h => h
    rintro m' ⟨hσ, ip, stack, h, hat⟩
    exact ⟨hσ, ip, stack, hQ a ip stack h, hat⟩
  | error stop σ =>
    rw [hr] at this
    cases stop <;> exact this

/-! ## One instruction -/

/-- The instruction at a place plays the evaluation. Where the evaluation goes beyond programs
without functions, nothing is asked. -/
def AtOnce (su : Surroundings) (main : Routine Value) (x : Eval α) (pos : Nat) (st : Array Value)
    (Q : α → Nat → Array Value → Prop) : Prop :=
  ∀ m : Machine, m.At main pos st → (∀ σ, x m.scene ≠ .error .beyond σ) →
    Comes su (Lands main x Q m) (Trips main x m) 1 m

theorem AtOnce.intro {ins : Instruction} (hsteps : su.settings.maxSteps = none)
    (hdecoded : decode main.code pos = .ok ins) (hhalt : ins.op ≠ .halt)
    (h : ∀ m : Machine, m.At main (pos + ins.size) st →
      (∀ σ, x m.scene ≠ .error .beyond σ) → Action.Ends (Action.execute su pos ins) m
        (fun _ m' => Lands main x Q m m') (fun f m' => Trips main x m f m')) :
    AtOnce su main x pos st Q := by
  intro m hm hbeyond
  have hends := h { m with steps := m.steps + 1, ip := m.ip + ins.size }
    ⟨hm.function, by rw [hm.ip], hm.stack, hm.calls⟩ hbeyond
  rw [← hm.ip] at hends
  exact .execute hsteps (by rw [hm.function, hm.ip]; exact hdecoded) hhalt hends

/-- What comes after an instruction comes at least one step later. -/
theorem AtOnce.bind {f : α → Eval β} (hx : AtOnce su main x pos st Q)
    (hf : ∀ a ip stack, Q a ip stack → Plays su main fuel (f a) ip stack R) :
    Plays su main (1 + fuel) (x >>= f) pos st R := by
  intro m hm
  show Meets su main (1 + fuel) R m (EStateM.bind x f m.scene)
  unfold EStateM.bind
  cases hr : x m.scene with
  | ok a σ =>
    have hcomes := hx m hm (by rw [hr]; exact nofun)
    refine Meets.after (hcomes.mono (fun _ h => h) ?_) ?_
    · rintro f m' ⟨hf, -⟩
      rw [hr] at hf
      cases hf
    · rintro m' ⟨b, hb, hQ, hfunction, hcalls⟩
      rw [hr] at hb
      cases hb
      exact hf a _ _ hQ m' ⟨hfunction, rfl, rfl, hcalls⟩
  | error stop σ =>
    have hnot : ∀ m', ¬ Lands main x Q m m' := by
      rintro m' ⟨b, hb, -⟩
      rw [hr] at hb
      cases hb
    cases stop with
    | fault e =>
      have hcomes := hx m hm (by rw [hr]; exact nofun)
      refine (hcomes.mono hnot ?_).weaken (Nat.zero_le 1)
      rintro f' m' ⟨hf, hcalls⟩
      rw [hr] at hf
      cases hf
      exact ⟨rfl, rfl, hcalls⟩
    | beyond => trivial
    | outOfFuel =>
      have hcomes := hx m hm (by rw [hr]; exact nofun)
      refine Comes.absurd (hcomes.mono hnot ?_)
      rintro f' m' ⟨hf, -⟩
      rw [hr] at hf
      cases hf

theorem AtOnce.plays (h : AtOnce su main x pos st Q) : Plays su main fuel x pos st Q := by
  have hplays : Plays su main (1 + fuel) (x >>= pure) pos st Q :=
    h.bind fun a ip stack hQ => Plays.done hQ
  rw [bind_pure] at hplays
  exact hplays.weaken (Nat.le_add_left _ _)

end

end Ember
