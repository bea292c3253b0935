import Ember.Proofs.Compile.Rollback
import Ember.Session

/-! Sessions that check their code and sessions that do not. No program that is compiled is refused
by the verifier, so the check changes no reply. -/
namespace Ember
set_option autoImplicit false

/-! ## Requests -/

/-- What can be asked of a session. -/
inductive Request
  | evaluate (source : String)
  | load (source : String)
  | compile (p : Program)
  | execute (range : CodeRange)

inductive Reply
  | answer (a : Answer)
  | added (result : Except SessionError CodeRange)

/-- The reply tells of code that the verifier has refused. -/
def Reply.isRefusal : Reply → Bool
  | .answer ⟨.error (.verify _), _⟩ => true
  | .added (.error (.verify _)) => true
  | _ => false

namespace Session

/-- One request. -/
def serve (s : Session) : Request → Reply × Session
  | .evaluate source =>
    let (answer, s) := s.evaluate source
    (.answer answer, s)
  | .load source =>
    let (result, s) := s.load source
    (.added result, s)
  | .compile p =>
    let (result, s) := s.compile p
    (.added result, s)
  | .execute range =>
    let (answer, s) := s.execute range
    (.answer answer, s)

/-- Requests one after the other. -/
def serveAll (s : Session) : List Request → List Reply × Session
  | [] => ([], s)
  | r :: rest =>
    let (reply, s) := s.serve r
    let (replies, s) := s.serveAll rest
    (reply :: replies, s)

/-- The same session, which checks code or does not. -/
def checking (s : Session) (b : Bool) : Session :=
  { s with surroundings := { s.surroundings with settings := { s.settings with verify := b } } }

/-! ## One request -/

variable {s : Session}

/-- A step does not depend on whether code was checked before. -/
theorem step_checking (s : Session) (b : Bool) :
    Action.step (s.checking b).surroundings = Action.step s.surroundings := rfl

theorem run_checking (s : Session) (b : Bool) (fuel : Nat) (m : Machine) :
    Machine.run (s.checking b).surroundings fuel m = Machine.run s.surroundings fuel m := by
  induction fuel generalizing m with
  | zero => rfl
  | succ fuel ih =>
    rw [Machine.run, Machine.run, step_checking]
    split
    · rfl
    · exact ih _
    · rfl

/-- The verifier has no part in what comes of a program. -/
theorem compile_eq (hs : s.compiler.Sound) (p : Program) :
    s.compile p = match s.compiler.compile p with
      | .error e => (.error (.compile e), s)
      | .ok (range, compiler) => (.ok range, { s with compiler }) := by
  unfold compile
  rw [Compiler.submit_eq (Compiler.kind_main hs)]
  cases hok : s.compiler.compile p with
  | error e => rfl
  | ok found =>
    obtain ⟨range, compiler⟩ := found
    have hverify : verifyChunk (main { s with compiler }) range = .ok () :=
      Compiler.verifyChunk_eq_ok hs hok
    dsimp only
    rw [hverify]
    exact ite_self _

theorem compile_checking (hs : s.compiler.Sound) (b : Bool) (p : Program) :
    (s.checking b).compile p = ((s.compile p).1, (s.compile p).2.checking b) := by
  rw [compile_eq hs, compile_eq (show (s.checking b).compiler.Sound from hs)]
  rw [show (s.checking b).compiler = s.compiler from rfl]
  cases s.compiler.compile p with
  | error e => rfl
  | ok found => rfl

theorem execute_checking (s : Session) (b : Bool) (range : CodeRange) :
    (s.checking b).execute range = ((s.execute range).1, (s.execute range).2.checking b) := by
  have hrun := run_checking s b Machine.ample
  unfold execute executeFor
  dsimp only [checking] at hrun ⊢
  rw [hrun]
  dsimp only [main]
  split <;> rfl

theorem load_checking (hs : s.compiler.Sound) (b : Bool) (source : String) :
    (s.checking b).load source = ((s.load source).1, (s.load source).2.checking b) := by
  unfold load
  split
  · rfl
  · exact compile_checking hs b _

theorem evaluate_checking (hs : s.compiler.Sound) (b : Bool) (source : String) :
    (s.checking b).evaluate source =
      ((s.evaluate source).1, (s.evaluate source).2.checking b) := by
  unfold evaluate
  rw [load_checking hs]
  rcases s.load source with ⟨result, s'⟩
  cases result with
  | error e => rfl
  | ok range => exact execute_checking s' b range

/-- The check changes neither the reply nor what the session becomes. -/
theorem serve_checking (hs : s.compiler.Sound) (b : Bool) (r : Request) :
    (s.checking b).serve r = ((s.serve r).1, (s.serve r).2.checking b) := by
  cases r with
  | evaluate source => simp only [serve, evaluate_checking hs]
  | load source => simp only [serve, load_checking hs]
  | compile p => simp only [serve, compile_checking hs]
  | execute range => simp only [serve, execute_checking]

/-! ## What sessions keep -/

theorem sound_compile (hs : s.compiler.Sound) (p : Program) : (s.compile p).2.compiler.Sound := by
  rw [compile_eq hs]
  cases hok : s.compiler.compile p with
  | error e => exact hs
  | ok found => exact (Compiler.compile_spec hs hok).1

theorem compiler_execute (s : Session) (range : CodeRange) :
    (s.execute range).2.compiler = s.compiler := by
  unfold execute executeFor
  dsimp only
  split <;> rfl

theorem sound_load (hs : s.compiler.Sound) (source : String) :
    (s.load source).2.compiler.Sound := by
  unfold load
  split
  · exact hs
  · exact sound_compile hs _

/-- Every request leaves a session whose code was compiled. -/
theorem sound_serve (hs : s.compiler.Sound) (r : Request) : (s.serve r).2.compiler.Sound := by
  cases r with
  | evaluate source =>
    have hload := sound_load hs source
    dsimp only [serve, evaluate]
    rcases hfound : s.load source with ⟨result, s'⟩
    rw [hfound] at hload
    cases result with
    | error e => exact hload
    | ok range =>
      dsimp only
      rw [compiler_execute]
      exact hload
  | load source => exact sound_load hs source
  | compile p => exact sound_compile hs p
  | execute range =>
    dsimp only [serve]
    rw [compiler_execute]
    exact hs

theorem compile_ne_verify (hs : s.compiler.Sound) (p : Program) (e : VerifyError) :
    (s.compile p).1 ≠ .error (.verify e) := by
  rw [compile_eq hs]
  cases s.compiler.compile p with
  | error e => exact fun h => by cases h
  | ok found => exact fun h => by cases h

theorem load_ne_verify (hs : s.compiler.Sound) (source : String) (e : VerifyError) :
    (s.load source).1 ≠ .error (.verify e) := by
  unfold load
  split
  · exact fun h => by cases h
  · exact compile_ne_verify hs _ e

theorem isRefusal_execute (s : Session) (range : CodeRange) :
    (Reply.answer (s.execute range).1).isRefusal = false := by
  unfold execute executeFor
  dsimp only
  split <;> rfl

/-- No reply tells of code that the verifier has refused. -/
theorem isRefusal_serve (hs : s.compiler.Sound) (r : Request) :
    (s.serve r).1.isRefusal = false := by
  have hadded : ∀ result : Except SessionError CodeRange,
      (∀ e, result ≠ .error (.verify e)) → (Reply.added result).isRefusal = false := by
    intro result hne
    unfold Reply.isRefusal
    split
    · contradiction
    · rename_i e heq
      cases heq
      exact absurd rfl (hne e)
    · rfl
  cases r with
  | evaluate source =>
    have hload := load_ne_verify hs source
    dsimp only [serve, evaluate]
    rcases hfound : s.load source with ⟨result, s'⟩
    rw [hfound] at hload
    cases result with
    | error e =>
      cases e with
      | verify e => exact absurd rfl (hload e)
      | _ => rfl
    | ok range => exact isRefusal_execute s' range
  | load source => exact hadded _ (load_ne_verify hs source)
  | compile p => exact hadded _ (compile_ne_verify hs p)
  | execute range => exact isRefusal_execute s range

/-! ## Requests one after the other -/

theorem serveAll_checking (hs : s.compiler.Sound) (b : Bool) (requests : List Request) :
    (s.checking b).serveAll requests =
      ((s.serveAll requests).1, (s.serveAll requests).2.checking b) := by
  induction requests generalizing s with
  | nil => rfl
  | cons r rest ih =>
    simp only [serveAll, serve_checking hs, ih (sound_serve hs r)]

theorem isRefusal_serveAll (hs : s.compiler.Sound) (requests : List Request) :
    ∀ reply ∈ (s.serveAll requests).1, reply.isRefusal = false := by
  induction requests generalizing s with
  | nil =>
    intro reply hreply
    cases hreply
  | cons r rest ih =>
    intro reply hreply
    rcases List.mem_cons.1 hreply with rfl | hreply
    · exact isRefusal_serve hs r
    · exact ih (sound_serve hs r) reply hreply

theorem sound_start (settings : Settings) (host : Array HostFunction) (heap : Heap)
    (world : World) : (start settings host heap world).compiler.Sound :=
  Compiler.sound_start _ _

end Session

/-! ## Compiled code and checks -/

/-- Whatever was compiled before, a chunk that is compiled is accepted by the verifier, is tiled by
instructions that end in `HALT`, and can be written out; so no session refuses code, and checking
changes no reply. -/
theorem compiled_chunks_verify (builtins : Array String) (firstId : Nat)
    (earlier : List Program) (p : Program) :
    (∀ range c', ((Compiler.start builtins firstId).after earlier).compile p = .ok (range, c') →
      verifyChunk c'.main range = .ok () ∧
      (∃ code front, c'.main.sweep range = .ok code ∧
        Tiling range.start range.stop code.toList ∧
        code.toList = front ++ [(range.stop - 1, ⟨.halt, []⟩)]) ∧
      ∀ heap, ∃ text, c'.main.disassembleRange heap range = .ok text) ∧
    ∀ (settings : Settings) (host : Array HostFunction) (heap : Heap) (world : World)
      (requests : List Request),
      (∀ reply ∈ ((Session.start settings host heap world).serveAll requests).1,
        reply.isRefusal = false) ∧
      (((Session.start settings host heap world).checking true).serveAll requests).1 =
        (((Session.start settings host heap world).checking false).serveAll requests).1 := by
  have hsound := Compiler.sound_after (Compiler.sound_start builtins firstId) earlier
  refine ⟨fun range c' h => ?_, fun settings host heap world requests => ?_⟩
  · exact ⟨Compiler.verifyChunk_eq_ok hsound h, Compiler.sweep_tiles hsound h,
      Compiler.disassembleRange_eq_ok hsound h⟩
  · have hstart := Session.sound_start settings host heap world
    refine ⟨Session.isRefusal_serveAll hstart requests, ?_⟩
    rw [Session.serveAll_checking hstart, Session.serveAll_checking hstart]

/-- A loop that is left and continued, and a function that makes a function. -/
def loopAndFunctions : Program := ⟨[
  .while .start (.bool .start true)
    [.if .start (.nil .start) [.break .start] (some [.continue .start])],
  .expr .start (.func .start []
    [.return .start (some (.logical .start .and (.nil .start) (.func .start [] [])))])]⟩

/-- Such a program is compiled twice, and the second chunk is accepted, too. -/
theorem compiled_chunks_verify_twice : ∃ range c',
    ((Compiler.start #[] 0).after [loopAndFunctions]).compile loopAndFunctions = .ok (range, c') ∧
      verifyChunk c'.main range = .ok () := by
  have hok : (((Compiler.start #[] 0).after [loopAndFunctions]).compile
      loopAndFunctions).isOk = true := by decide +kernel
  cases h : ((Compiler.start #[] 0).after [loopAndFunctions]).compile loopAndFunctions with
  | error e =>
    rw [h] at hok
    cases hok
  | ok found =>
    obtain ⟨range, c'⟩ := found
    exact ⟨range, c', rfl,
      ((compiled_chunks_verify #[] 0 [loopAndFunctions] loopAndFunctions).1 range c' h).1⟩

end Ember
