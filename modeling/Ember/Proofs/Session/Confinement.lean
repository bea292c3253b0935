import Ember.Proofs.Capture.Confinement
import Ember.Proofs.Machine.Limits
import Ember.Proofs.Session.Capture

/-! Cells over the life of a session. At no moment of any run do they get out of the frames and
closures whose variables they hold, so none is left in a value that outlives the run. -/
namespace Ember
set_option autoImplicit false

namespace Lived

variable {first s : Session} {w : Moment} {chunks : List CodeRange} {L : Ledger} {m : Machine}
  {v : Value}

theorem gathers (hfirst : Moment.Tracked ⟨first, [], none, .empty⟩) (h : Lived first w) :
    ∀ m, w.machine = some m → m.Gathers := by
  induction h with
  | start | compile _ _ _ | halt _ _ _ | fail _ _ _ | abandon _ _ => exact nofun
  | launch world _ _ _ =>
    rintro m ⟨⟩
    exact Machine.gathers_of_cellless nofun
  | step h _ hstep ih =>
    rintro m ⟨⟩
    have htracked := h.tracked hfirst
    have hends := Tracks.gathers_step htracked.host htracked.state (ih _ rfl)
    unfold Action.Ends at hends
    rw [hstep] at hends
    exact hends.2

theorem confined (hfirst : Moment.Tracked ⟨first, [], none, .empty⟩)
    (h : Lived first ⟨s, chunks, some m, L⟩) : m.Confined :=
  Tracks.confined (h.tracked hfirst).state (h.gathers hfirst m rfl)

/-- When a run halts, there are no cells on its stack. -/
theorem cellless_halted (hfirst : Moment.Tracked ⟨first, [], none, .empty⟩)
    (h : Lived first ⟨s, chunks, some m, L⟩) {fuel : Nat} {m' : Machine}
    (hrun : m.run s.surroundings fuel = .halted m') : ∀ v ∈ m'.stack, v.Obeys cellless := by
  obtain ⟨k, last, -, hlast, hends⟩ := Machine.exists_last_step hrun nofun
  obtain ⟨L', hlived⟩ := h.running hlast
  have htracked := hlived.tracked hfirst
  have hstep := Tracks.gathers_step htracked.host htracked.state (hlived.gathers hfirst last rfl)
  unfold Action.Ends at hstep
  rw [Machine.run] at hends
  cases hresult : Action.step s.surroundings last with
  | error fault m₁ =>
    rw [hresult] at hends
    cases hends
  | ok halted m₁ =>
    rw [hresult] at hends hstep
    cases halted with
    | false => cases hends
    | true =>
      cases hends
      exact hstep.1 rfl

theorem result_execute (hfirst : Moment.Tracked ⟨first, [], none, .empty⟩)
    (h : Lived first ⟨s, chunks, none, L⟩) {range : CodeRange} (hrange : range ∈ chunks)
    (hv : (s.execute range).1.result = .ok v) : v.Obeys cellless := by
  have hhalted : ∀ fuel m', Machine.run _ fuel _ = .halted m' → ∀ v ∈ m'.stack, v.Obeys cellless :=
    fun _ _ => (h.launch { s.world with cancelled := false } hrange).cellless_halted hfirst
  unfold Session.execute Session.executeFor at hv
  dsimp only [Session.main] at hhalted hv
  split at hv
  · rename_i m' hm
    have hstack := hhalted _ m' hm
    cases hv
    unfold Machine.top?
    cases hback : m'.stack.back? with
    | none => exact Value.obeys_of_plain rfl rfl
    | some v => exact hstack v (Array.mem_of_back? hback)
  · cases hv
  · cases hv

end Lived

/-- Over the whole life of a session, cells are confined: to the slots of frames, the lists of
closures, and, while a closure is constructed, the top of the stack. No value that a run leaves is
or holds one. -/
theorem cells_are_confined (settings : Settings) (host : Array HostFunction) (world : World)
    (hhost : DiscreetHost host) (w : Moment)
    (h : Lived (Session.start settings host .empty world) w) :
    (∀ m, w.machine = some m → m.Confined) ∧
    (w.machine = none → w.session.heap.Obeys cellless ∧ w.session.globals.Obeys cellless ∧
      (∀ range ∈ w.chunks, ∀ v, (w.session.execute range).1.result = .ok v → v.Obeys cellless) ∧
      ∀ source v, (w.session.evaluate source).1.result = .ok v → v.Obeys cellless) := by
  have hfirst := tracked_start settings world hhost
  obtain ⟨s, chunks, machine, L⟩ := w
  constructor
  · rintro m ⟨⟩
    exact h.confined hfirst
  · rintro ⟨⟩
    have hstore : Store L s.heap s.globals := (h.tracked hfirst).state
    refine ⟨hstore.heap.cellless, hstore.globals.cellless,
      fun range hrange v hv => h.result_execute hfirst hrange hv, fun source v hv => ?_⟩
    obtain ⟨chunks', hlived, -, hmem⟩ := h.after_load hfirst.compiler source
    unfold Session.evaluate at hv
    rcases hload : s.load source with ⟨result, s'⟩
    rw [hload] at hv hlived hmem
    cases result with
    | error e => cases hv
    | ok range => exact hlived.result_execute hfirst (hmem range rfl) hv

/-! ## A closure that is under way -/

/-- How many cells are on the stack of a run that goes on. -/
def Outcome.cells? : Outcome → Option Nat
  | .running m => some (m.stack.countP Value.isCell)
  | _ => none

theorem Outcome.running_of_cells? {r : Outcome} {n : Nat} (h : r.cells? = some n) :
    ∃ m, r = .running m ∧ m.stack.countP Value.isCell = n := by
  cases r with
  | running m => exact ⟨m, rfl, Option.some.inj h⟩
  | _ => cases h

theorem run_closureOfParameter {main f : Routine Value} {g : Globals} {h : Heap} {world : World}
    (hcode : main.code = callsIt.encode #[]) (hlocals : main.localCount = 0)
    (hconstants : main.constants = #[.function f]) (hbody : f.code = closesOverIt.encode #[])
    (hslots : f.localCount = 1) (hparams : f.params = #["x"]) :
    ((Machine.start main 0 g h world).run ⟨.standard, #[]⟩ 4).cells? = some 1 := by
  obtain ⟨_, _, _, code, _, _, _, _, _⟩ := main
  obtain ⟨_, _, _, code, _, _, _, _, _⟩ := f
  dsimp only at hcode hlocals hconstants hbody hslots hparams
  subst hcode hlocals hconstants hbody hslots hparams
  set_option maxRecDepth 10000 in
  cbv

/-- After four steps the cell of the parameter is on the stack, and the closure is under way. -/
theorem cells_are_confined_in_construction : ∃ w m,
    Lived (Session.start .standard #[] .empty (.start 0 0)) w ∧ w.machine = some m ∧
      m.stack.countP Value.isCell = 1 ∧ m.Confined := by
  have hhost : DiscreetHost #[] := nofun
  have hfirst := tracked_start .standard (.start 0 0) hhost
  have hfresh : (Session.start .standard #[] .empty (.start 0 0)).compiler.Fresh :=
    Compiler.fresh_start _ _
  obtain ⟨c, f, g, hok, hcode, hconstants, hbody, -, hslots, hparams, -⟩ :=
    compile_closureOfParameter hfresh
  have hcompile := Session.compile_eq hfirst.compiler closureOfParameter
  rw [hok] at hcompile
  obtain ⟨m, hm, hcells⟩ := Outcome.running_of_cells?
    (run_closureOfParameter hcode rfl hconstants hbody hslots hparams)
  obtain ⟨L, hlived⟩ :=
    ((Lived.start.compile hcompile).launch (.start 0 0) List.mem_cons_self).running hm
  have hconfined := (cells_are_confined .standard #[] (.start 0 0) hhost _ hlived).1 m rfl
  exact ⟨_, m, hlived, rfl, hcells, hconfined⟩

end Ember
