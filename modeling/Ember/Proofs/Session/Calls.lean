import Ember.Proofs.Machine.Calls
import Ember.Proofs.Session.Continuation

/-! Calls over the life of a session. In every run of accepted code, and so in every run of a chunk
that a session has compiled, a call that returns leaves its caller as it was. -/
namespace Ember
set_option autoImplicit false

theorem verifyCode_of_verifyChunk {main : Routine Value} {range : CodeRange}
    (h : verifyChunk main range = .ok ()) : verifyCode main range = .ok () := by
  unfold verifyChunk at h
  split at h
  · cases h
  · split at h
    · exact h
    · cases h

/-- While a chunk runs, the verifier has foreseen where the run is. -/
theorem Lived.underway {first : Session} {w : Moment}
    (hfirst : Moment.Tracked ⟨first, [], none, .empty⟩) (h : Lived first w) {m : Machine}
    (hm : w.machine = some m) : ∃ start row, m.Underway w.session.main start row := by
  induction h generalizing m with
  | start | compile | halt | fail | abandon => cases hm
  | @launch s chunks L range world h hrange =>
    cases hm
    have htracked := h.tracked hfirst
    obtain ⟨row, plan, hplanned⟩ := htracked.chunks range hrange
    exact ⟨range.start, row, htracked.underway hplanned world⟩
  | @step s chunks L m₀ m' ins h hdecoded hstep ih =>
    cases hm
    have htracked := h.tracked hfirst
    obtain ⟨start, row, hunderway⟩ := ih rfl
    exact ⟨start, row, hunderway.step (Compiler.kind_main htracked.compiler) htracked.host hstep⟩

/-- A call that returns leaves its caller where it was, with the value in the place of the function
and its arguments, and with all frames as they were: in every run of accepted code whose functions
are accepted, too, and in every run of a chunk that a session has compiled. -/
theorem calls_return_to_their_callers :
    (∀ (s : Surroundings) (main : Routine Value) (range : CodeRange) (globals : Globals)
      (heap : Heap) (world : World), main.scope.kind = .topLevel → verifyChunk main range = .ok () →
      Disciplined main range → globals.Obeys soundness → heap.Obeys soundness → SoundHost s.host →
      ∀ fuel m, (Machine.start main range.start globals heap world).run s fuel = .running m →
        m.CallsReturn s) ∧
    ∀ (settings : Settings) (host : Array HostFunction) (world : World), DiscreetHost host →
      ∀ w m, Lived (Session.start settings host .empty world) w → w.machine = some m →
        m.CallsReturn w.session.surroundings := by
  constructor
  · intro s main range globals heap world hmain haccepted hdisciplined hglobals hheap hhost fuel m
      hrun
    have hforeseen := (foreseen_start world hmain (verifyCode_of_verifyChunk haccepted) hdisciplined
      hglobals hheap).run hmain hhost fuel
    rw [hrun] at hforeseen
    exact hforeseen.callsReturn hmain hhost
  · intro settings host world hhost w m h hm
    have hfirst := tracked_start settings world hhost
    have htracked := h.tracked hfirst
    obtain ⟨start, row, hunderway⟩ := h.underway hfirst hm
    exact hunderway.foreseen.callsReturn (Compiler.kind_main htracked.compiler) htracked.host.sound

/-! ## A call in a call -/

/-- How many calls are active, if the run goes on. -/
def Outcome.depth : Outcome → Nat
  | .running m => m.frames.size
  | _ => 0

theorem Outcome.running_of_depth {r : Outcome} (h : 0 < r.depth) :
    ∃ m, r = .running m ∧ m.frames.size = r.depth := by
  cases r with
  | running m => exact ⟨m, rfl, rfl⟩
  | halted m | failed failure m => exact absurd h (Nat.lt_irrefl 0)

/-- A call whose depth is known at each step spans the steps up to the one that returns. -/
theorem Machine.spans_of_depth {su : Surroundings} {m : Machine} {k : Nat}
    (hsome : 0 < m.frames.size) (hdeeper : ∀ j < k, m.frames.size < (m.run su (j + 1)).depth)
    (hback : (m.run su (k + 1)).depth = m.frames.size) :
    ∃ last after, m.Spans su k last after := by
  obtain ⟨last, hlast⟩ : ∃ last, m.run su k = .running last := by
    cases k with
    | zero => exact ⟨m, rfl⟩
    | succ k =>
      obtain ⟨last, hlast, -⟩ := Outcome.running_of_depth
        (Nat.lt_trans hsome (hdeeper k (Nat.lt_succ_self k)))
      exact ⟨last, hlast⟩
  obtain ⟨after, hafter, hsize⟩ := Outcome.running_of_depth (hback ▸ hsome)
  have hstep : Action.step su last = .ok false after := by
    rw [Machine.run_add hlast] at hafter
    obtain ⟨n, hstep, hn⟩ := Machine.run_succ_eq_running hafter
    cases hn
    exact hstep
  refine ⟨last, after, hlast, fun j n hj hle hrun => ?_, hstep, Nat.le_of_eq (hsize.trans hback)⟩
  obtain ⟨j, rfl⟩ := Nat.exists_eq_succ_of_ne_zero (Nat.ne_of_gt hj)
  have hlt := hdeeper j hle
  rw [hrun] at hlt
  exact hlt

/-- Whether a function without parameters is about to be called. -/
def Machine.isCalling (m : Machine) : Bool :=
  match decode m.function.code m.ip, m.stack.back? with
  | .ok ⟨.call, [0]⟩, some (.function f) => f.arity == 0
  | _, _ => false

theorem Machine.calls_of_isCalling {m : Machine} {su : Surroundings} (h : m.isCalling = true)
    (hdepth : m.frames.size < su.settings.maxCallDepth) :
    ∃ f, m.Calls su f #[] m.stack.pop #[] := by
  unfold isCalling at h
  split at h
  · rename_i f hdecoded hback
    obtain ⟨st, hst⟩ := Array.back?_eq_some_iff.1 hback
    refine ⟨f, hdecoded, ⟨.function f, rfl, ?_⟩, (beq_iff_eq.1 h).symm, hdepth⟩
    rw [hst, Array.pop_push, Array.append_empty]
  · cases h

/-- Whether a chunk calls a function at its second step, which calls another one and has returned
after five steps. -/
def callsTwice (globals : Globals) (heap : Heap)
    (chunk : Except CompileError (CodeRange × Compiler)) : Bool :=
  match chunk with
  | .error _ => false
  | .ok (range, c) =>
    match (Machine.start c.main range.start globals heap (.start 0 0)).run ⟨.standard, #[]⟩ 1 with
    | .running m => m.isCalling && decide (m.frames.size = 1 ∧
        (∀ j ∈ List.range 4, m.frames.size < (m.run ⟨.standard, #[]⟩ (j + 1)).depth) ∧
        (m.run ⟨.standard, #[]⟩ 3).depth = 3 ∧ (m.run ⟨.standard, #[]⟩ 5).depth = m.frames.size)
    | _ => false

/-- The outer one of two calls returns the value of the inner one to the chunk. -/
theorem calls_return_to_their_callers_from_inner : ∃ w m last after v,
    Lived (Session.start .standard #[] .empty (.start 0 0)) w ∧ w.machine = some m ∧
      m.Spans w.session.surroundings 4 last after ∧ last.Returns v ∧
      m.Resumed (m.ip + 2) m.stack.pop v after := by
  have hdepths : callsTwice (Session.start .standard #[] .empty (.start 0 0)).globals
      (Session.start .standard #[] .empty (.start 0 0)).heap
      ((Session.start .standard #[] .empty (.start 0 0)).compiler.compile callInCall) = true := by
    decide +kernel
  have hhost : DiscreetHost #[] := nofun
  have hfirst := tracked_start .standard (.start 0 0) hhost
  cases hok : (Session.start .standard #[] .empty (.start 0 0)).compiler.compile callInCall with
  | error e =>
    rw [hok] at hdepths
    cases hdepths
  | ok found =>
    obtain ⟨range, c⟩ := found
    have hcompile := Session.compile_eq hfirst.compiler callInCall
    rw [hok] at hcompile
    have hlaunched := (Lived.start.compile hcompile).launch (.start 0 0) List.mem_cons_self
    have hrun := hlaunched.run 1
    rw [hok, callsTwice] at hdepths
    dsimp only [Session.main] at hrun hdepths
    split at hdepths
    · rename_i m hm
      rw [show Machine.run (Session.start .standard #[] .empty (.start 0 0)).surroundings 1 _ = _
        from hm] at hrun
      obtain ⟨L, hlived⟩ := hrun
      obtain ⟨hcalling, hdepths⟩ := Bool.and_eq_true_iff.1 hdepths
      obtain ⟨hone, hdeeper, -, hback⟩ := of_decide_eq_true hdepths
      have hdepth : m.frames.size < Settings.standard.maxCallDepth := by
        rw [hone]
        decide
      obtain ⟨f, hcalls⟩ : ∃ f, m.Calls ⟨.standard, #[]⟩ f #[] m.stack.pop #[] :=
        Machine.calls_of_isCalling hcalling hdepth
      obtain ⟨last, after, hspans⟩ := Machine.spans_of_depth (hone ▸ Nat.one_pos)
        (fun j hj => hdeeper j (List.mem_range.2 hj)) hback
      obtain ⟨-, hreturns⟩ := calls_return_to_their_callers.2 .standard #[] (.start 0 0) hhost _ m
        hlived rfl f #[] m.stack.pop #[] hcalls
      obtain ⟨-, v, hgives, hresumed⟩ := hreturns 4 last after hspans
      exact ⟨_, m, last, after, v, hlived, rfl, hspans, hgives, hresumed⟩
    · cases hdepths

end Ember
