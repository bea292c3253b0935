import Mathlib
import Ember.Proofs.Session.Verification

/-! Texts that are refused, because they cannot be read or compiled. They might as well not have
been there: the compiler takes back what it has added to its tables, and all other requests get the
same replies. -/
namespace Ember
set_option autoImplicit false

/-- The text could not be read, or was refused by the compiler. -/
def Answer.isRefused (a : Answer) : Bool :=
  match a.result with
  | .error (.source _) | .error (.compile _) => true
  | _ => false

/-- A text was to be evaluated, and the reply tells that it was refused. -/
def Request.refusedBy : Request → Reply → Bool
  | .evaluate _, .answer a => a.isRefused
  | _, _ => false

namespace Session

variable {s : Session}

/-! ## One text -/

/-- What is run is not refused. -/
theorem isRefused_execute (s : Session) (range : CodeRange) :
    (s.execute range).1.isRefused = false := by
  unfold execute executeFor
  dsimp only
  split <;> rfl

/-- A program that the compiler refuses leaves the session as it was; any other one is compiled,
though the verifier may stop it from being run. -/
theorem compile_cases (htop : s.compiler.scope.kind = .topLevel) (p : Program) :
    (s.compile p).2.compiler.scope.kind = .topLevel ∧
      match (s.compile p).1 with
      | .error (.compile _) => (s.compile p).2 = s
      | .error (.verify _) | .ok _ => True
      | .error _ => False := by
  have hkind := Compiler.kind_submit (p := p) htop
  have hrefused : ∀ e, (s.compiler.submit p).1 = .error e → (s.compiler.submit p).2 = s.compiler :=
    fun e => Compiler.submit_refused htop
  unfold compile
  generalize s.compiler.submit p = submitted at hkind hrefused ⊢
  obtain ⟨result, compiler⟩ := submitted
  cases result with
  | error e =>
    refine ⟨hkind, ?_⟩
    rw [show compiler = s.compiler from hrefused e rfl]
  | ok range =>
    dsimp only
    split
    · split
      · exact ⟨hkind, trivial⟩
      · exact ⟨hkind, trivial⟩
    · exact ⟨hkind, trivial⟩

theorem kind_load (htop : s.compiler.scope.kind = .topLevel) (source : String) :
    (s.load source).2.compiler.scope.kind = .topLevel := by
  unfold load
  split
  · exact htop
  · exact (compile_cases htop _).1

/-- A text that is refused leaves the session as it was. -/
theorem evaluate_refused (htop : s.compiler.scope.kind = .topLevel) (source : String) :
    (s.evaluate source).2.compiler.scope.kind = .topLevel ∧
      ((s.evaluate source).1.isRefused = true → (s.evaluate source).2 = s) := by
  unfold evaluate load
  cases parse source with
  | error e => exact ⟨htop, fun _ => rfl⟩
  | ok p =>
    obtain ⟨hkind, hcases⟩ := compile_cases htop p
    dsimp only
    generalize s.compile p = compiled at hkind hcases ⊢
    obtain ⟨result, s'⟩ := compiled
    cases result with
    | ok range =>
      dsimp only
      rw [compiler_execute, isRefused_execute]
      exact ⟨hkind, nofun⟩
    | error e =>
      refine ⟨hkind, fun hrefused => ?_⟩
      cases e with
      | source e | run f | unfinished => exact hcases.elim
      | compile e => exact hcases
      | verify e => cases hrefused

/-! ## All requests -/

theorem serve_refused (htop : s.compiler.scope.kind = .topLevel) (r : Request) :
    (s.serve r).2.compiler.scope.kind = .topLevel ∧
      (r.refusedBy (s.serve r).1 = true → (s.serve r).2 = s) := by
  cases r with
  | evaluate source => exact evaluate_refused htop source
  | load source => exact ⟨kind_load htop source, nofun⟩
  | compile p => exact ⟨(compile_cases htop p).1, nofun⟩
  | execute range =>
    refine ⟨?_, nofun⟩
    dsimp only [serve]
    rw [compiler_execute]
    exact htop

theorem serveAll_cons (s : Session) (r : Request) (rest : List Request) :
    s.serveAll (r :: rest) =
      ((s.serve r).1 :: ((s.serve r).2.serveAll rest).1, ((s.serve r).2.serveAll rest).2) := rfl

/-- The requests whose texts were not refused, with their replies. -/
def accepted (s : Session) (requests : List Request) : List (Request × Reply) :=
  (requests.zip (s.serveAll requests).1).filter fun e => !e.1.refusedBy e.2

/-- Each request is told apart by its own reply. -/
theorem accepted_cons (s : Session) (r : Request) (rest : List Request) :
    s.accepted (r :: rest) =
      if r.refusedBy (s.serve r).1 then (s.serve r).2.accepted rest
      else (r, (s.serve r).1) :: (s.serve r).2.accepted rest := by
  unfold accepted
  rw [serveAll_cons, List.zip_cons_cons]
  cases hrefused : r.refusedBy (s.serve r).1 with
  | true => exact List.filter_cons_of_neg (by simp [hrefused])
  | false => exact List.filter_cons_of_pos (by simp [hrefused])

/-- The requests that are left get the same replies without the others, and leave the same
session. -/
theorem serveAll_accepted (htop : s.compiler.scope.kind = .topLevel) (requests : List Request) :
    s.serveAll ((s.accepted requests).map Prod.fst) =
      ((s.accepted requests).map Prod.snd, (s.serveAll requests).2) := by
  induction requests generalizing s with
  | nil => rfl
  | cons r rest ih =>
    obtain ⟨hkind, hrefused⟩ := serve_refused htop r
    rw [accepted_cons, serveAll_cons]
    cases hreply : r.refusedBy (s.serve r).1 with
    | true =>
      rw [hrefused hreply]
      exact ih htop
    | false =>
      rw [if_neg Bool.false_ne_true, List.map_cons, serveAll_cons, ih hkind]
      rfl

end Session

/-- Whatever a program has added to the tables before it is refused, the compiler is then as it was.
So of all that is asked of a session the texts that are refused can be left out: no other reply
changes, and the session that is left is the same. -/
theorem refused_programs_leave_no_trace :
    (∀ c : Compiler, c.scope.kind = .topLevel → ∀ p e, (c.submit p).1 = .error e →
      (c.submit p).2 = c) ∧
    ∀ s : Session, s.compiler.scope.kind = .topLevel → ∀ requests,
      s.serveAll ((s.accepted requests).map Prod.fst) =
        ((s.accepted requests).map Prod.snd, (s.serveAll requests).2) :=
  ⟨fun _ htop _ _ h => Compiler.submit_refused htop h,
    fun _ htop requests => Session.serveAll_accepted htop requests⟩

/-- A function, which is added to the constants, and a loop that is left where there is none. -/
def strayBreak : Program := ⟨[.expr .start (.func .start [] []), .break .start]⟩

theorem refused_programs_leave_no_trace_break :
    ((Compiler.start #[] 0).submit strayBreak).1.isOk = false ∧
      ((Compiler.start #[] 0).submit strayBreak).2 = .start #[] 0 ∧
      ((Session.start .standard #[] .empty (.start 0 0)).serveAll
          [.evaluate "break", .compile strayBreak]).2 =
        ((Session.start .standard #[] .empty (.start 0 0)).serveAll [.compile strayBreak]).2 := by
  obtain ⟨hcompiler, hsession⟩ := refused_programs_leave_no_trace
  have hrefused : ((Compiler.start #[] 0).submit strayBreak).1.isOk = false := by decide +kernel
  have hanswer : ((Session.start .standard #[] .empty (.start 0 0)).evaluate "break").1.isRefused =
      true := by
    obtain ⟨span, hparse⟩ : ∃ span, parse "break" = .ok ⟨[.break span]⟩ := ⟨_, by cbv⟩
    unfold Session.evaluate Session.load
    rw [hparse]
    rfl
  have htop : (Session.start .standard #[] .empty (.start 0 0)).compiler.scope.kind = .topLevel :=
    rfl
  refine ⟨hrefused, ?_, ?_⟩
  · cases he : ((Compiler.start #[] 0).submit strayBreak).1 with
    | error e => exact hcompiler _ rfl _ e he
    | ok range =>
      rw [he] at hrefused
      cases hrefused
  · generalize Session.start .standard #[] .empty (.start 0 0) = s at hanswer htop ⊢
    have hbreak : (Request.evaluate "break").refusedBy (s.serve (.evaluate "break")).1 = true :=
      hanswer
    have hleft : (s.serve (.evaluate "break")).2 = s := (Session.serve_refused htop _).2 hbreak
    have haccepted : s.accepted [.evaluate "break", .compile strayBreak] =
        [(.compile strayBreak, (s.serve (.compile strayBreak)).1)] := by
      rw [Session.accepted_cons, if_pos hbreak, hleft]
      rfl
    have hserve := hsession s htop [.evaluate "break", .compile strayBreak]
    rw [haccepted] at hserve
    exact (congrArg Prod.snd hserve).symm

end Ember
