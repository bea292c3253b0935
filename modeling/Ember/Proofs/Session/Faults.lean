import Ember.Proofs.Capture.Orderly
import Ember.Proofs.Session.Capture

/-! Faults over the life of a session. Texts are evaluated one after the other, and what earlier
ones have left is used by later ones; no step of any run fails because of the code. -/
namespace Ember
set_option autoImplicit false

/-- No value that tells of malformed code is around, and none comes from the host. -/
structure Moment.Orderly (w : Moment) : Prop where
  host : ObedientHost orderly w.session.surroundings.host
  state : match w.machine with
    | none => w.session.heap.Obeys orderly ∧ w.session.globals.Obeys orderly
    | some m => m.Orderly

theorem Machine.orderly_start {globals : Globals} {heap : Heap} (hheap : heap.Obeys orderly)
    (hglobals : globals.Obeys orderly) (main : Routine Value) (offset : Nat) (world : World) :
    (Machine.start main offset globals heap world).Orderly := by
  refine ⟨nofun, fun frame hframe v hv => ?_, hheap, hglobals⟩
  rw [List.mem_singleton.1 (Array.mem_toList_iff.2 hframe)] at hv
  rw [Array.eq_of_mem_replicate hv]
  exact Value.obeys_of_plain rfl rfl

namespace Lived

variable {first s : Session} {w : Moment} {chunks : List CodeRange} {L : Ledger} {m : Machine}

theorem orderly (hfirst : Moment.Tracked ⟨first, [], none, .empty⟩)
    (horderly : Moment.Orderly ⟨first, [], none, .empty⟩) (h : Lived first w) : w.Orderly := by
  induction h with
  | start => exact horderly
  | @compile s s' chunks L p range h hcompile ih =>
    rw [Session.compile_eq (h.tracked hfirst).compiler] at hcompile
    cases hok : s.compiler.compile p with
    | error e =>
      rw [hok] at hcompile
      cases hcompile
    | ok found =>
      rw [hok] at hcompile
      cases hcompile
      exact ⟨ih.host, ih.state⟩
  | launch world _ _ ih => exact ⟨ih.host, Machine.orderly_start ih.state.1 ih.state.2 _ _ world⟩
  | step h _ hstep ih =>
    have hends := Tracks.orderly_step ih.host (h.tracked hfirst).state ih.state
    unfold Action.Ends at hends
    rw [hstep] at hends
    exact ⟨ih.host, hends⟩
  | halt h hstep ih =>
    have hends := Tracks.orderly_step ih.host (h.tracked hfirst).state ih.state
    unfold Action.Ends at hends
    rw [hstep] at hends
    exact ⟨ih.host, hends.heap, hends.globals⟩
  | fail h hstep ih =>
    have hends := Tracks.orderly_step ih.host (h.tracked hfirst).state ih.state
    unfold Action.Ends at hends
    rw [hstep] at hends
    exact ⟨ih.host, hends.heap, hends.globals⟩
  | abandon _ ih => exact ⟨ih.host, ih.state.heap, ih.state.globals⟩

/-- However long a run goes on, it does not fail because of the code. -/
theorem run_orderly (hfirst : Moment.Tracked ⟨first, [], none, .empty⟩)
    (horderly : Moment.Orderly ⟨first, [], none, .empty⟩)
    (h : Lived first ⟨s, chunks, some m, L⟩) (fuel : Nat) :
    match m.run s.surroundings fuel with
    | .failed failure _ => failure.fault.Ordinary
    | _ => True := by
  induction fuel generalizing m L with
  | zero => trivial
  | succ fuel ih =>
    have htracks := (h.tracked hfirst).state
    have hends := Tracks.orderly_step (h.orderly hfirst horderly).host htracks
      (h.orderly hfirst horderly).state
    unfold Action.Ends at hends
    obtain ⟨-, -, ins, -, -, hdecoded, -⟩ := Tracks.step (h.tracked hfirst).host htracks
    rw [Machine.run]
    cases hstep : Action.step s.surroundings m with
    | error fault m' =>
      rw [hstep] at hends
      exact hends.fault
    | ok halted m' =>
      cases halted with
      | true => trivial
      | false => exact ih (h.step hdecoded hstep)

end Lived

/-! ## Sequences of texts -/

/-- The texts with the answers to them, and the session that is left. -/
def Session.transcript (s : Session) : List String → List (String × Answer) × Session
  | [] => ([], s)
  | source :: rest =>
    let (answer, s) := s.evaluate source
    let (answers, s) := s.transcript rest
    ((source, answer) :: answers, s)

theorem Lived.transcript {first s : Session} {chunks : List CodeRange} {L : Ledger}
    (hfirst : Moment.Tracked ⟨first, [], none, .empty⟩) (h : Lived first ⟨s, chunks, none, L⟩)
    (sources : List String) :
    ∃ chunks' L', Lived first ⟨(s.transcript sources).2, chunks', none, L'⟩ := by
  induction sources generalizing s chunks L with
  | nil => exact ⟨chunks, L, h⟩
  | cons source sources ih =>
    obtain ⟨chunks', L', h'⟩ := h.evaluate hfirst.compiler source
    exact ih h'

theorem orderly_start (settings : Settings) (world : World) :
    Moment.Orderly ⟨Session.start settings #[] .empty world, [], none, .empty⟩ := by
  obtain ⟨hglobals, hkept⟩ := Globals.standard_obeys #[] (Heap.obeys_empty orderly)
  exact ⟨nofun, hkept.obeys, hglobals⟩

/-- A text that is read and compiled can be run. -/
theorem Lived.load {first s s' : Session} {chunks : List CodeRange} {L : Ledger} {source : String}
    {range : CodeRange} (h : Lived first ⟨s, chunks, none, L⟩)
    (hload : s.load source = (.ok range, s')) : Lived first ⟨s', range :: chunks, none, L⟩ := by
  unfold Session.load at hload
  split at hload
  · cases hload
  · exact h.compile hload

/-- Without a host, whatever texts have been evaluated before, no step of a run fails because of the
code: not while it reads an instruction, not for want of values or frames, and not while it makes a
closure. -/
theorem runs_never_fault_in_code (settings : Settings) (world : World) (sources : List String)
    (source : String) :
    match ((Session.start settings #[] .empty world).transcript sources).2.load source with
    | (.error _, _) => True
    | (.ok range, s) => ∀ fuel,
      match (Machine.start s.main range.start s.globals s.heap
          { s.world with cancelled := false }).run s.surroundings fuel with
      | .failed failure _ => failure.fault.isCodeFault = false
      | _ => True := by
  have hhost : DiscreetHost #[] := nofun
  have hfirst := tracked_start settings world hhost
  obtain ⟨chunks, L, hlived⟩ := Lived.start.transcript hfirst sources
  split
  · trivial
  · rename_i range s hload
    intro fuel
    exact ((hlived.load hload).launch _ List.mem_cons_self).run_orderly hfirst
      (orderly_start settings world) fuel

end Ember
