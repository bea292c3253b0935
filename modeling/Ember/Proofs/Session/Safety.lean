import Ember.Proofs.Compile.Chunks
import Ember.Proofs.Verify.Soundness

/-! Runs of accepted code are safe. The compiler loads functions as the verifier relies on, so this
holds of all code that is compiled. -/
namespace Ember
set_option autoImplicit false

/-! ## Compiled code is disciplined -/

theorem Planned.disciplined {f : Routine Value} {start : Nat} {row : List Instruction} {p : Plan}
    (h : Planned f start row p) (hconstant : ∀ v ∈ f.constants, v.isConstant = true)
    (hinner : ∀ g, Value.function g ∈ f.constants → Disciplined g g.range) :
    Disciplined f ⟨start, start + rowSize row⟩ := by
  have hloaded : ∀ g op, Loads f ⟨start, start + rowSize row⟩ op g → Disciplined g g.range := by
    rintro g op ⟨pos, ins, -, -, -, hg⟩
    exact hinner g (Array.mem_of_getElem? hg)
  refine .intro (fun g hloads => ?_) (fun g => hloaded g _) (fun g => hloaded g _)
    fun v hv hfunction => ?_
  · obtain ⟨pos, ins, hrecorded, hdecoded, hop, hg⟩ := hloads
    obtain ⟨height, hheight⟩ := Option.isSome_iff_exists.1 hrecorded
    obtain ⟨s, hs, -⟩ := Option.map_eq_some_iff.1 (eq_of_recordedHeight h.agree hheight)
    obtain ⟨ins', s', hdecoded', -, -, hadmits, -⟩ := h.visit hs
    rw [hdecoded] at hdecoded'
    cases hdecoded'
    have hmoves := hadmits.moves
    simp only [Moves, hop] at hmoves
    exact hmoves.1 g hg
  · have hplain := hconstant v hv
    cases v with
    | function g => exact absurd rfl (hfunction g)
    | int _ | float _ | str _ => exact .plain rfl
    | _ => cases hplain

theorem Compiled.disciplined {g : Routine Value} (h : Compiled g) : Disciplined g g.range := by
  induction h with
  | @intro g row p _ _ _ hplan hsize hconstant _ _ ih =>
    have := hplan.disciplined hconstant ih
    rwa [Nat.zero_add, ← hsize] at this

theorem Compiler.disciplined {c c' : Compiler} {p : Program} {range : CodeRange} (hc : c.Sound)
    (h : c.compile p = .ok (range, c')) : Disciplined c'.main range := by
  obtain ⟨hc', -, -, -, row, plan, hplanned, hstop⟩ := compile_spec hc h
  have := hplanned.disciplined hc'.constant fun g hg => (hc'.compiled hg).disciplined
  rwa [← hstop] at this

/-! ## Accepted code -/

/-- No run of accepted code meets a fault of malformed code, and in every state that it reaches, the
stack above the active frame has the height that the verifier has recorded for the offset. -/
theorem accepted_code_runs_safely (s : Surroundings) (main : Routine Value) (range : CodeRange)
    (globals : Globals) (heap : Heap) (world : World) (hmain : main.scope.kind = .topLevel)
    (haccepted : verifyChunk main range = .ok ()) (hdisciplined : Disciplined main range)
    (hglobals : globals.Obeys soundness) (hheap : heap.Obeys soundness)
    (hhost : SoundHost s.host) (fuel : Nat) :
    match (Machine.start main range.start globals heap world).run s fuel with
    | .halted _ => True
    | .failed failure _ => failure.fault.isMalformed = false
    | .running m => ∃ frame, m.frames.back? = some frame ∧ frame.base ≤ m.stack.size ∧
        m.function = frame.function ∧ (m.frames.size = 1 → m.function = main) ∧
        recordedHeight m.function (if m.frames.size = 1 then range else m.function.range) m.ip =
          some (m.stack.size - frame.base) := by
  have hcode : verifyCode main range = .ok () := by
    unfold verifyChunk at haccepted
    split at haccepted
    · cases haccepted
    · split at haccepted
      · exact haccepted
      · cases haccepted
  have hrun := (foreseen_start world hmain hcode hdisciplined hglobals hheap).run hmain hhost fuel
  cases hr : (Machine.start main range.start globals heap world).run s fuel with
  | halted m => trivial
  | failed failure m =>
    rw [hr] at hrun
    exact hrun
  | running m =>
    rw [hr] at hrun
    obtain ⟨⟨frame, callers, hframes, hfunction, hplaced, hawaits⟩, -⟩ := hrun
    have hstretch : (if m.frames.size = 1 then range else m.function.range) =
        stretch range frame callers.toList.reverse := by
      rw [hframes, hfunction, stretch, Array.size_push]
      simp
    refine ⟨frame, by rw [hframes, Array.back?_push], hplaced.base, hfunction, fun hone => ?_, ?_⟩
    · rw [hframes, Array.size_push] at hone
      rw [Array.size_eq_zero_iff.1 (show callers.size = 0 by omega)] at hawaits
      exact hfunction.trans hawaits
    · rw [hstretch, hfunction]
      exact hplaced.recorded

/-- A function that returns the value of another one, called at the top level. -/
def callInCall : Program := ⟨[
  .expr .start (.call .start (.func .start []
    [.return .start (some (.call .start (.func .start [] []) []))]) [])]⟩

/-- How many calls are active after so many steps of a chunk. -/
def activeCalls (globals : Globals) (heap : Heap)
    (chunk : Except CompileError (CodeRange × Compiler)) (fuel : Nat) : Nat :=
  match chunk with
  | .error _ => 0
  | .ok (range, c) =>
    match (Machine.start c.main range.start globals heap (.start 0 0)).run ⟨.standard, #[]⟩ fuel
      with
    | .running m => m.frames.size
    | _ => 0

/-- After three steps the inner function has been pushed in the outer one, and the verifier has
foreseen that. -/
theorem accepted_code_runs_safely_in_call : ∃ range c' m frame,
    (Compiler.start #[] 0).compile callInCall = .ok (range, c') ∧
      verifyChunk c'.main range = .ok () ∧ Disciplined c'.main range ∧
      (Machine.start c'.main range.start .empty .empty (.start 0 0)).run ⟨.standard, #[]⟩ 3 =
        .running m ∧
      m.frames.size = 2 ∧ m.frames.back? = some frame ∧
      recordedHeight m.function m.function.range m.ip = some (m.stack.size - frame.base) := by
  have hcalls : activeCalls .empty .empty ((Compiler.start #[] 0).compile callInCall) 3 = 2 := by
    decide +kernel
  have hsound := Compiler.sound_start #[] 0
  cases hchunk : (Compiler.start #[] 0).compile callInCall with
  | error e =>
    rw [hchunk] at hcalls
    cases hcalls
  | ok found =>
    obtain ⟨range, c'⟩ := found
    have haccepted := Compiler.verifyChunk_eq_ok hsound hchunk
    have hdisciplined := Compiler.disciplined hsound hchunk
    have hkind := Compiler.kind_main (Compiler.compile_spec hsound hchunk).1
    have hsafe := accepted_code_runs_safely ⟨.standard, #[]⟩ c'.main range .empty .empty
      (.start 0 0) hkind haccepted hdisciplined
      (Globals.obeys_empty _) (Heap.obeys_empty _) (fun _ h => absurd h (Array.not_mem_empty _)) 3
    rw [hchunk, activeCalls] at hcalls
    cases hrun : (Machine.start c'.main range.start .empty .empty (.start 0 0)).run
      ⟨.standard, #[]⟩ 3 with
    | halted m =>
      rw [hrun] at hcalls
      cases hcalls
    | failed failure m =>
      rw [hrun] at hcalls
      cases hcalls
    | running m =>
      rw [hrun] at hcalls hsafe
      obtain ⟨frame, hframe, -, -, -, hrecorded⟩ := hsafe
      rw [if_neg (by rw [show m.frames.size = 2 from hcalls]; decide)] at hrecorded
      exact ⟨range, c', m, frame, rfl, haccepted, hdisciplined, hrun, hcalls, hframe, hrecorded⟩

end Ember
