import Ember.Proofs.Session.Continuation

/-! Sessions in which a program is run in two parts. Both parts are compiled exactly if the whole
is, and where the first part halts, the second one goes on as if both had been one program. -/
namespace Ember
set_option autoImplicit false

open CompileM

/-! ## Sessions -/

namespace Session

variable {s t : Session} {range : CodeRange} {answer : Answer}

/-- The machine that runs a chunk of the session. -/
def launch (s : Session) (range : CodeRange) : Machine :=
  .start s.main range.start s.globals s.heap { s.world with cancelled := false }

/-- What the session makes of a run. -/
def conclude (s : Session) : Outcome → Answer × Session
  | .halted m => (⟨.ok (m.top?.getD .nil), m.output⟩, s.resume m)
  | .failed failure m => (⟨.error (.run failure), m.output⟩, s.resume m)
  | .running m => (⟨.error .unfinished, m.output⟩, s.resume m)

theorem executeFor_eq (s : Session) (fuel : Nat) (range : CodeRange) :
    s.executeFor fuel range = s.conclude ((s.launch range).run s.surroundings fuel) := by
  unfold executeFor launch
  dsimp only [main]
  cases Machine.run s.surroundings fuel (.start s.compiler.main range.start s.globals s.heap
    { s.world with cancelled := false }) <;> rfl

/-- The run of the chunk ends with the answer, however many steps it takes, and leaves the session
`t`. -/
def Ends (s : Session) (range : CodeRange) (answer : Answer) (t : Session) : Prop :=
  answer.result ≠ .error .unfinished ∧ ∃ fuel, s.executeFor fuel range = (answer, t)

theorem ends_iff : s.Ends range answer t ↔ ∃ fuel r, (s.launch range).run s.surroundings fuel = r ∧
    (∀ m, r ≠ .running m) ∧ s.conclude r = (answer, t) := by
  unfold Ends
  constructor
  · rintro ⟨hended, fuel, hrun⟩
    rw [executeFor_eq] at hrun
    refine ⟨fuel, _, rfl, fun m hm => ?_, hrun⟩
    rw [hm] at hrun
    cases hrun
    exact hended rfl
  · rintro ⟨fuel, r, rfl, hended, hconclude⟩
    refine ⟨fun hunfinished => ?_, fuel, (s.executeFor_eq fuel range).trans hconclude⟩
    cases hr : (s.launch range).run s.surroundings fuel with
    | running m => exact hended m hr
    | halted m | failed failure m =>
      rw [hr] at hconclude
      cases hconclude
      cases hunfinished

/-- A run ends with one answer. -/
theorem Ends.answer_eq {answer' : Answer} {t' : Session} (h : s.Ends range answer t)
    (h' : s.Ends range answer' t') : answer = answer' := by
  obtain ⟨fuel, r, hrun, hended, hconclude⟩ := ends_iff.1 h
  obtain ⟨fuel', r', hrun', hended', hconclude'⟩ := ends_iff.1 h'
  obtain rfl := Machine.run_unique hrun hrun' hended hended'
  exact congrArg Prod.fst (hconclude.symm.trans hconclude')

theorem ends_of_halted (s : Session) (range : CodeRange) {fuel : Nat} {m : Machine}
    (h : (s.launch range).run s.surroundings fuel = .halted m) :
    s.Ends range ⟨.ok (m.top?.getD .nil), m.output⟩ (s.resume m) :=
  ends_iff.2 ⟨fuel, _, h, nofun, rfl⟩

/-- Programs are compiled exactly if the compiler accepts them. -/
theorem compile_eq_ok_iff {s' : Session} (hs : s.compiler.Sound) {p : Program} :
    s.compile p = (.ok range, s') ↔
      ∃ c, s.compiler.compile p = .ok (range, c) ∧ s' = { s with compiler := c } := by
  rw [compile_eq hs]
  cases hok : s.compiler.compile p with
  | error e =>
    constructor
    · nofun
    · rintro ⟨c, hc, -⟩
      cases hc
  | ok found =>
    obtain ⟨found, c⟩ := found
    constructor
    · intro h
      cases h
      exact ⟨c, rfl, rfl⟩
    · rintro ⟨c', hc, rfl⟩
      cases hc
      rfl

/-- Twins come to the same answer, apart from what one of them has printed before. -/
theorem conclude_twin (s₂ s' : Session) {k : Link} {r r' : Outcome} (h : r.Twin k r')
    (hsurroundings : s'.surroundings = s₂.surroundings) :
    ((∀ m, r' ≠ .running m) ↔ ∀ m, r ≠ .running m) ∧
    s'.conclude r' = (⟨(s₂.conclude r).1.result, k.printed ++ (s₂.conclude r).1.printed⟩,
      { (s₂.conclude r).2 with compiler := s'.compiler }) := by
  have hresume : ∀ {a b : Machine}, Machine.Twins k a b → b.top? = a.top? ∧
      b.output = k.printed ++ a.output ∧
      s'.resume b = { s₂.resume a with compiler := s'.compiler } := by
    rintro a b ⟨depth, h⟩
    unfold resume Machine.top?
    rw [h.globals, h.heap, h.world, h.stack, hsurroundings]
    exact ⟨rfl, h.output, rfl⟩
  unfold Outcome.Twin at h
  split at h
  · obtain ⟨htop, houtput, hsession⟩ := hresume h
    refine ⟨⟨nofun, nofun⟩, ?_⟩
    rw [conclude, htop, houtput, hsession]
    rfl
  · obtain ⟨rfl, h⟩ := h
    obtain ⟨-, houtput, hsession⟩ := hresume h
    refine ⟨⟨nofun, nofun⟩, ?_⟩
    rw [conclude, houtput, hsession]
    rfl
  · obtain ⟨-, houtput, hsession⟩ := hresume h
    refine ⟨⟨fun hne => absurd rfl (hne _), fun hne => absurd rfl (hne _)⟩, ?_⟩
    rw [conclude, houtput, hsession]
    rfl
  · exact h.elim

/-- A run that comes to where it is a twin of another one ends as that one does. -/
theorem ends_iff_of_twin (s₂ s' : Session) {k : Link} {r r₂ : CodeRange} {n : Nat} {b : Machine}
    (hsurroundings : s'.surroundings = s₂.surroundings)
    (hreach : ∀ more, (s'.launch r).run s'.surroundings (n + more) = b.run s'.surroundings more)
    (htwin : ∀ fuel, ((s₂.launch r₂).run s'.surroundings fuel).Twin k
      (b.run s'.surroundings fuel)) {result : Except SessionError Value} {text : String} :
    s'.Ends r ⟨result, text⟩ t ↔ ∃ text₂ t₂, s₂.Ends r₂ ⟨result, text₂⟩ t₂ ∧
      text = k.printed ++ text₂ ∧ t = { t₂ with compiler := s'.compiler } := by
  simp only [ends_iff, ← hsurroundings]
  constructor
  · rintro ⟨fuel, x, hrun, hended, hconclude⟩
    have hrun' := Machine.run_of_ended hrun hended (Nat.le_add_left fuel n)
    rw [hreach] at hrun'
    obtain ⟨hiff, heq⟩ := conclude_twin s₂ s' (htwin fuel) hsurroundings
    rw [hrun'] at hiff heq
    rw [hconclude] at heq
    obtain ⟨⟨rfl, rfl⟩, rfl⟩ := heq
    exact ⟨_, _, ⟨fuel, _, rfl, hiff.1 hended, rfl⟩, rfl, rfl⟩
  · rintro ⟨text₂, t₂, ⟨fuel, y, rfl, hended, hconclude⟩, rfl, rfl⟩
    obtain ⟨hiff, heq⟩ := conclude_twin s₂ s' (htwin fuel) hsurroundings
    rw [hconclude] at heq
    exact ⟨n + fuel, _, hreach fuel, hiff.2 hended, heq⟩

end Session

/-- The limits and the host stay as they are. -/
theorem Lived.surroundings {first : Session} {w : Moment} (h : Lived first w) :
    w.session.surroundings = first.surroundings := by
  induction h with
  | start => rfl
  | @compile s s' chunks L p range _ hcompile ih =>
    rw [← ih, ← show (s.compile p).2 = s' from congrArg Prod.snd hcompile]
    unfold Session.compile
    split
    · rfl
    · dsimp only
      split
      · split <;> rfl
      · rfl
  | launch _ _ _ ih | step _ _ _ ih | halt _ _ ih | fail _ _ ih | abandon _ ih => exact ih

/-- Two programs are compiled one after the other exactly if both in one are. -/
theorem Session.compile_append_iff {s : Session} (hs : s.compiler.Sound) {first second : List Stmt}
    (hne : second ≠ []) :
    (∃ r₁ s₁ r₂ s₂, s.compile ⟨first⟩ = (.ok r₁, s₁) ∧ s₁.compile ⟨second⟩ = (.ok r₂, s₂)) ↔
      ∃ r s', s.compile ⟨first ++ second⟩ = (.ok r, s') := by
  constructor
  · rintro ⟨r₁, s₁, r₂, s₂, h₁, h₂⟩
    obtain ⟨c₁, hc₁, rfl⟩ := (Session.compile_eq_ok_iff hs).1 h₁
    obtain ⟨c₂, hc₂, -⟩ := (Session.compile_eq_ok_iff (Compiler.compile_spec hs hc₁).1).1 h₂
    obtain ⟨r, c', hc'⟩ := (Compiler.compile_append_iff hs hne).1 ⟨r₁, c₁, r₂, c₂, hc₁, hc₂⟩
    exact ⟨r, _, (Session.compile_eq_ok_iff hs).2 ⟨c', hc', rfl⟩⟩
  · rintro ⟨r, s', h⟩
    obtain ⟨c', hc', -⟩ := (Session.compile_eq_ok_iff hs).1 h
    obtain ⟨r₁, c₁, r₂, c₂, hc₁, hc₂⟩ := (Compiler.compile_append_iff hs hne).2 ⟨r, c', hc'⟩
    exact ⟨r₁, _, r₂, _, (Session.compile_eq_ok_iff hs).2 ⟨c₁, hc₁, rfl⟩,
      (Session.compile_eq_ok_iff (Compiler.compile_spec hs hc₁).1).2 ⟨c₂, hc₂, rfl⟩⟩

theorem World.resumed {w : World} (h : w.cancelled = false) :
    { w with cancelled := false } = w := by
  rw [← h]

/-- A session whose chunk has halted can go on. -/
theorem Lived.resumes {start s : Session} {chunks : List CodeRange} {L : Ledger} {range : CodeRange}
    (hs : Lived start ⟨s, chunks, none, L⟩) (hrange : range ∈ chunks) {fuel : Nat} {m : Machine}
    (hrun : (s.launch range).run s.surroundings fuel = .halted m) :
    ∃ L', Lived start ⟨s.resume m, chunks, none, L'⟩ := by
  have hlaunched := (hs.launch { s.world with cancelled := false } hrange).run fuel
  unfold Session.launch at hrun
  rw [hrun] at hlaunched
  exact hlaunched

/-- When the first of two programs has halted, the run of both in one has come to where it is a twin
of the run of the second one. -/
theorem Lived.continues {start s : Session} {chunks : List CodeRange} {L : Ledger}
    (hstart : Moment.Tracked ⟨start, [], none, .empty⟩) (hs : Lived start ⟨s, chunks, none, L⟩)
    (hpatient : PatientHost s.surroundings.host)
    (hsteps : s.surroundings.settings.maxSteps = none) {first second : List Stmt}
    (hne : second ≠ []) {r₁ r₂ r : CodeRange} {c₁ c₂ c : Compiler}
    (hc₁ : s.compiler.compile ⟨first⟩ = .ok (r₁, c₁)) (hc₂ : c₁.compile ⟨second⟩ = .ok (r₂, c₂))
    (hc : s.compiler.compile ⟨first ++ second⟩ = .ok (r, c)) {fuel : Nat} {a : Machine}
    (hrun : (Session.launch { s with compiler := c₁ } r₁).run s.surroundings fuel = .halted a) :
    ∃ (k : Link) (n : Nat) (b : Machine), k.printed = a.output ∧
      (∀ more, (Session.launch { s with compiler := c } r).run s.surroundings (n + more) =
        b.run s.surroundings more) ∧
      ∀ fuel, Outcome.Twin k
        ((Session.launch { s.resume a with compiler := c₂ } r₂).run s.surroundings fuel)
        (b.run s.surroundings fuel) := by
  have htracked := hs.tracked hstart
  have hsound : s.compiler.Sound := htracked.compiler
  have hhost : DiscreetHost s.surroundings.host := htracked.host
  obtain ⟨hsound₁, -⟩ := Compiler.compile_spec hsound hc₁
  obtain ⟨hsound₂, hgrows, -⟩ := Compiler.compile_spec hsound₁ hc₂
  obtain ⟨hsame, row₁, row₂, plan₁, plan₂, hsplit⟩ := Compiler.compile_split hsound hne hc₁ hc₂ hc
  have hname₂ : c.main.name = c₂.main.name := by
    rw [hsame]
    rfl
  have hname₁ : c.main.name = c₁.main.name := hname₂.trans (Compiler.compile_same hc₂).2.1
  -- the sessions before and after the run of the first program
  have hlived₁ := hs.compile ((Session.compile_eq_ok_iff hsound).2 ⟨c₁, hc₁, rfl⟩)
  obtain ⟨L', hlived⟩ := hlived₁.resumes List.mem_cons_self hrun
  have hlived₂ := hlived.compile ((Session.compile_eq_ok_iff hsound₁).2 ⟨c₂, hc₂, rfl⟩)
  have hstate : c.state = c₂.state := by
    rw [hsame]
    rfl
  have htables₁ : Link.Tables ⟨c₁.main, c.main, 0, "", hname₁⟩ :=
    .of_grows rfl rfl (hstate ▸ hgrows)
  obtain ⟨hgoing, n, b, hreach, htwin⟩ := hsplit.continues hhost hpatient hsteps hsound₁ hname₁
    hname₂ htables₁ rfl ((hlived₁.tracked hstart).underway hsplit.planned₁ _) hrun
  -- the run of the second program
  have htables₂ : Link.Tables ⟨c₂.main, c.main, 1 - valuesLeft first, a.output, hname₂⟩ :=
    .of_grows rfl rfl (hstate ▸ .refl _)
  have hlaunch : Session.launch { s.resume a with compiler := c₂ } r₂ =
      .start c₂.main r₂.start a.globals a.heap a.world := by
    show Machine.start c₂.main r₂.start a.globals a.heap { a.world with cancelled := false } = _
    rw [World.resumed hgoing]
  have hplanned₂ := hsplit.planned₂
  have hunderway₂ := (hlived₂.tracked hstart).underway hsplit.planned₂ a.world
  refine ⟨⟨c₂.main, c.main, 1 - valuesLeft first, a.output, hname₂⟩, n, b, rfl, hreach,
    fun fuel => ?_⟩
  rw [hlaunch]
  rw [hsplit.start_second] at htwin hplanned₂ hunderway₂ ⊢
  exact Machine.Twins.run (Compiler.kind_main hsound₂) hhost hpatient hsteps htables₂ hplanned₂
    hsplit.decodes_second ⟨0, htwin⟩ hunderway₂ fuel

/-- Two programs are compiled one after the other exactly if both in one are. If the first one
halts, the run of the second one ends exactly if that of both in one does, with the same value or
error, and leaves the same names, heap and tables; what both have printed is what both in one print.
The functions of the host hand out compiled code only, and do not ask for an end, which the next run
would take back. -/
theorem chunks_run_as_one (settings : Settings) (host : Array HostFunction) (world : World)
    (hhost : DiscreetHost host) (hpatient : PatientHost host) (hsteps : settings.maxSteps = none)
    (s : Session) (chunks : List CodeRange) (L : Ledger)
    (hs : Lived (Session.start settings host .empty world) ⟨s, chunks, none, L⟩)
    (first second : List Stmt) (hne : second ≠ []) :
    ((∃ r₁ s₁ r₂ s₂, s.compile ⟨first⟩ = (.ok r₁, s₁) ∧ s₁.compile ⟨second⟩ = (.ok r₂, s₂)) ↔
      ∃ r s', s.compile ⟨first ++ second⟩ = (.ok r, s')) ∧
    ∀ r₁ s₁ v printed t₁ r s', s.compile ⟨first⟩ = (.ok r₁, s₁) →
      s₁.Ends r₁ ⟨.ok v, printed⟩ t₁ → s.compile ⟨first ++ second⟩ = (.ok r, s') →
      ∃ r₂ s₂, t₁.compile ⟨second⟩ = (.ok r₂, s₂) ∧
        s'.compiler = { s₂.compiler with code := s'.compiler.code } ∧
        ∀ result text t, s'.Ends r ⟨result, text⟩ t ↔
          ∃ text₂ t₂, s₂.Ends r₂ ⟨result, text₂⟩ t₂ ∧ text = printed ++ text₂ ∧
            t = { t₂ with compiler := s'.compiler } := by
  have hstart := tracked_start settings world hhost
  have hsound : s.compiler.Sound := (hs.tracked hstart).compiler
  refine ⟨Session.compile_append_iff hsound hne, fun r₁ s₁ v printed t₁ r s' h₁ hends h => ?_⟩
  have hsurroundings : s.surroundings = ⟨settings, host⟩ := hs.surroundings
  obtain ⟨c₁, hc₁, rfl⟩ := (Session.compile_eq_ok_iff hsound).1 h₁
  obtain ⟨c, hc, rfl⟩ := (Session.compile_eq_ok_iff hsound).1 h
  obtain ⟨hsound₁, -⟩ := Compiler.compile_spec hsound hc₁
  obtain ⟨r₁', c₁', r₂, c₂, hc₁', hc₂⟩ := (Compiler.compile_append_iff hsound hne).2 ⟨r, c, hc⟩
  cases hc₁.symm.trans hc₁'
  obtain ⟨fuel, outcome, hrun, -, hconclude⟩ := Session.ends_iff.1 hends
  cases outcome with
  | failed failure a => cases hconclude
  | running a => cases hconclude
  | halted a =>
    cases hconclude
    obtain ⟨k, n, b, hprinted, hreach, htwin⟩ := hs.continues hstart
      (by rw [hsurroundings]; exact hpatient) (by rw [hsurroundings]; exact hsteps) hne hc₁ hc₂ hc
      hrun
    refine ⟨r₂, { s.resume a with compiler := c₂ },
      (Session.compile_eq_ok_iff hsound₁).2 ⟨c₂, hc₂, rfl⟩,
      (Compiler.compile_split hsound hne hc₁ hc₂ hc).1, fun result text t => ?_⟩
    dsimp only
    rw [← hprinted]
    exact Session.ends_iff_of_twin { s.resume a with compiler := c₂ } { s with compiler := c } rfl
      hreach htwin

/-- A program that leaves a list on the stack. -/
def makeList : List Stmt := [.expr .start (.list .start [.nil .start])]

/-- A program that calls a function. -/
def callTrue : List Stmt := [.expr .start (.call .start
  (.func .start [] [.return .start (some (.bool .start true))]) [])]

/-- Whether the second of two programs comes to a truth value within so many steps, and to which. -/
def secondTruth? (s : Session) (first second : List Stmt) (fuel : Nat) : Option Bool :=
  match s.compile ⟨first⟩ with
  | (.error _, _) => none
  | (.ok r₁, s₁) =>
    match s₁.executeFor fuel r₁ with
    | (⟨.error _, _⟩, _) => none
    | (⟨.ok _, _⟩, t₁) =>
      match t₁.compile ⟨second⟩ with
      | (.error _, _) => none
      | (.ok r₂, s₂) =>
        match s₂.executeFor fuel r₂ with
        | (⟨.ok (.bool b), _⟩, _) => some b
        | _ => none

/-- The call comes to the same after a list has been made, with the list in a chunk of its own or
dropped in the same chunk. -/
theorem chunks_run_as_one_list_and_call : ∃ r s' text t,
    (Session.start ⟨1000, none, 10000, false⟩ #[] .empty (.start 0 0)).compile
      ⟨makeList ++ callTrue⟩ = (.ok r, s') ∧ s'.Ends r ⟨.ok (.bool true), text⟩ t := by
  have htruth : secondTruth? (Session.start ⟨1000, none, 10000, false⟩ #[] .empty (.start 0 0))
      makeList callTrue 6 = some true := by decide +kernel
  have hboth : ((Session.start ⟨1000, none, 10000, false⟩ #[] .empty (.start 0 0)).compile
      ⟨makeList ++ callTrue⟩).1.isOk = true := by decide +kernel
  rcases hone : (Session.start ⟨1000, none, 10000, false⟩ #[] .empty (.start 0 0)).compile
    ⟨makeList ++ callTrue⟩ with ⟨e | r, s'⟩
  · rw [hone] at hboth
    cases hboth
  · unfold secondTruth? at htruth
    split at htruth
    · cases htruth
    · rename_i r₁ s₁ h₁
      split at htruth
      · cases htruth
      · rename_i v printed t₁ hfirst
        obtain ⟨r₂, s₂, h₂, -, hends⟩ := (chunks_run_as_one ⟨1000, none, 10000, false⟩ #[]
          (.start 0 0) nofun nofun rfl _ _ _ .start makeList callTrue nofun).2 r₁ s₁ v printed t₁ r
          s' h₁ ⟨nofun, 6, hfirst⟩ hone
        rw [h₂] at htruth
        dsimp only at htruth
        split at htruth
        · rename_i text t₂ hsecond
          cases htruth
          exact ⟨r, s', _, _, rfl, (hends _ _ _).2 ⟨_, t₂, ⟨nofun, 6, hsecond⟩, rfl, rfl⟩⟩
        · cases htruth

/-! ## Calling what a host hands out -/

/-- The expression `name()()`. -/
def callTwice (outer inner place : Span) (name : String) : Expr :=
  .call outer (.call inner (.ident place name) []) []

/-- Its code at the top level, where nothing else has a name. -/
def codeOfCallTwice : Fragment :=
  #[.op ⟨.loadName, [0]⟩, .op ⟨.call, [0]⟩, .op ⟨.call, [0]⟩]

theorem compileExpr_callTwice (builtins : Std.HashSet String) (outer inner place : Span)
    (name : String) (nextId : Nat) :
    compileExpr builtins (callTwice outer inner place name) ⟨.empty, [.topLevel "main"], nextId⟩ =
      .ok (codeOfCallTwice, ⟨Pools.empty.addName name, [.topLevel "main"], nextId⟩) := by
  have hadd : addName name place ⟨.empty, [.topLevel "main"], nextId⟩ =
      .ok (0, ⟨Pools.empty.addName name, [.topLevel "main"], nextId⟩) :=
    addName_first name place rfl
  have hident : compileExpr builtins (.ident place name) ⟨.empty, [.topLevel "main"], nextId⟩ =
      .ok (#[.op ⟨.loadName, [0]⟩],
        ⟨Pools.empty.addName name, [.topLevel "main"], nextId⟩) := by
    rw [compileExpr]
    exact bind_eq_ok.2 ⟨.name name, _, rfl,
      bind_pure_eq_ok.2 ⟨_, bind_eq_ok.2 ⟨0, _, hadd, rfl⟩, rfl⟩⟩
  have hcall : ∀ {span : Span} {callee : Expr} {code : Fragment} {s s' : CompileState},
      compileExpr builtins callee s = .ok (code, s') →
        compileExpr builtins (.call span callee []) s = .ok (code.push (.op ⟨.call, [0]⟩), s') := by
    intro span callee code s s' hcallee
    rw [compileExpr]
    exact bind_eq_ok.2 ⟨(), s, rfl, bind_eq_ok.2 ⟨code, s', hcallee, bind_eq_ok.2 ⟨code, s', rfl,
      bind_pure_eq_ok.2 ⟨_, rfl, rfl⟩⟩⟩⟩
  exact hcall (hcall hident)

/-- The code of `name()()` as a program of its own. -/
def chunkOfCallTwice : Fragment := codeOfCallTwice.push (.op ⟨.halt, []⟩)

/-- The code of `name()()` with `nil` after it. -/
def chunkOfCallTwiceThenNil : Fragment :=
  codeOfCallTwice ++ #[.op ⟨.popTop, []⟩, .op ⟨.pushNil, []⟩, .op ⟨.halt, []⟩]

/-- The code of `nil` as a program of its own. -/
def chunkOfNil : Fragment := #[.op ⟨.pushNil, []⟩, .op ⟨.halt, []⟩]

namespace Compiler

variable {c : Compiler}

variable (a outer inner place : Span) (name : String)

theorem compile_callTwice (hc : c.Fresh) :
    ∃ c' : Compiler, c.compile ⟨[.expr a (callTwice outer inner place name)]⟩ =
        .ok (⟨0, c'.code.size⟩, c') ∧
      c'.main.code = chunkOfCallTwice.encode #[] ∧ c'.main.names = #[name] := by
  obtain ⟨c', hcompile, hcode, -, hnames⟩ := compile_first
    (p := ⟨[.expr a (callTwice outer inner place name)]⟩) hc
    (bind_pure_eq_ok.2 ⟨_, compileExpr_callTwice .., rfl⟩)
  exact ⟨c', hcompile, hcode, hnames.trans (keys_addName_first rfl name)⟩

theorem compile_callTwice_nil (hc : c.Fresh) (b d : Span) :
    ∃ c' : Compiler, c.compile ⟨[.expr a (callTwice outer inner place name), .expr b (.nil d)]⟩ =
        .ok (⟨0, c'.code.size⟩, c') ∧
      c'.main.code = chunkOfCallTwiceThenNil.encode #[] ∧ c'.main.names = #[name] := by
  have hcall : compileStmt c.builtins false (.expr a (callTwice outer inner place name))
      ⟨.empty, [.topLevel "main"], c.nextId⟩ = .ok (codeOfCallTwice.push (.op ⟨.popTop, []⟩),
        ⟨Pools.empty.addName name, [.topLevel "main"], c.nextId⟩) := by
    rw [compileStmt]
    exact bind_pure_eq_ok.2 ⟨_, compileExpr_callTwice .., rfl⟩
  obtain ⟨c', hcompile, hcode, -, hnames⟩ := compile_first
    (p := ⟨[.expr a (callTwice outer inner place name), .expr b (.nil d)]⟩) hc
    (bind_eq_ok.2 ⟨_, _, hcall, rfl⟩)
  exact ⟨c', hcompile, hcode, hnames.trans (keys_addName_first rfl name)⟩

theorem compile_nil (c : Compiler) (a b : Span) :
    ∃ c' : Compiler, c.compile ⟨[.expr a (.nil b)]⟩ = .ok (⟨c.code.size, c'.code.size⟩, c') ∧
      c'.main.code = chunkOfNil.encode c.code := by
  have hchunk : compileChunk c.builtins [.expr a (.nil b)] #[] c.state =
      .ok (chunkOfNil, c.state) := rfl
  obtain ⟨c', hcompile, hcode, -⟩ := compile_of_chunk hchunk
  exact ⟨c', hcompile, hcode⟩

end Compiler

/-- A step that loads a name. -/
theorem Action.step_loadName {su : Surroundings} {m : Machine} {i : Nat} {n : String} {v : Value}
    (hsteps : su.settings.maxSteps = none) (hstack : m.stack.size ≤ su.settings.maxStackSize)
    (hdecoded : decode m.function.code m.ip = .ok ⟨.loadName, [i]⟩)
    (hname : m.function.names[i]? = some n) (hget : m.globals.get? n = some v) :
    Action.step su m =
      .ok false { m with steps := m.steps + 1, ip := m.ip + 3, stack := m.stack.push v } := by
  have hexecute : Action.execute su m.ip ⟨.loadName, [i]⟩
      { m with steps := m.steps + 1, ip := m.ip + Instruction.size ⟨.loadName, [i]⟩ } =
        .ok () { m with steps := m.steps + 1, ip := m.ip + 3, stack := m.stack.push v } := by
    change EStateM.bind (Action.name i) _ _ = _
    unfold EStateM.bind Action.name
    dsimp only
    rw [hname]
    change EStateM.bind (Action.loadGlobal n) _ _ = _
    unfold EStateM.bind Action.loadGlobal
    dsimp only
    rw [hget]
    rfl
  rw [Action.step_eq hsteps, if_neg (Nat.not_lt_of_le hstack), hdecoded]
  dsimp only
  rw [if_neg nofun, hexecute]

/-! ## A host whose code halts -/

/-- Code that no program is compiled to: it halts in the middle of a call. -/
def haltsInCall : Routine Value where
  id := 0
  name := "f"
  params := #[]
  code := Fragment.encode
    #[.op ⟨.pushNil, []⟩, .op ⟨.pushTrue, []⟩, .op ⟨.halt, []⟩] #[]
  constants := #[]
  names := #[]
  localCount := 0
  freeVariables := #[]
  scope := ⟨.function, "f", #[]⟩

/-- A function of a host that hands out such code. -/
def stop : HostFunction := ⟨"stop", fun _ s => (.function haltsInCall, s)⟩

def stopSession : Session := .start .standard #[stop] .empty (.start 0 0)

/-- In how many frames a run has halted, with what on the stack and what printed. -/
def Outcome.left? : Outcome → Option (Nat × Array Value × String)
  | .halted m => some (m.frames.size, m.stack, m.output)
  | _ => none

theorem Outcome.halted_of_left? {r : Outcome} {frames : Nat} {stack : Array Value} {output : String}
    (h : r.left? = some (frames, stack, output)) :
    ∃ m, r = .halted m ∧ m.frames.size = frames ∧ m.stack = stack ∧ m.output = output := by
  cases r with
  | halted m =>
    cases h
    exact ⟨m, rfl, rfl, rfl, rfl⟩
  | _ => cases h

/-- Whatever comes after the calls, the run halts in the second one. -/
theorem run_stop {main : Routine Value} {g : Globals} {h : Heap} {id : Nat} {world : World}
    (hcode : main.code = chunkOfCallTwice.encode #[] ∨
      main.code = chunkOfCallTwiceThenNil.encode #[])
    (hlocals : main.localCount = 0) (hnames : main.names = #["stop"])
    (hget : g.get? "stop" = some (.builtin id (.host "stop" 0))) :
    ((Machine.start main 0 g h world).run ⟨.standard, #[stop]⟩ 6).left? =
      some (2, #[.nil, .bool true], "") := by
  have hdecoded : decode main.code 0 = .ok ⟨.loadName, [0]⟩ := by
    rcases hcode with hcode | hcode
    · rw [hcode]
      decide
    · rw [hcode]
      decide
  have hstep : Action.step ⟨.standard, #[stop]⟩ (.start main 0 g h world) = _ :=
    Action.step_loadName rfl (Nat.zero_le _) hdecoded (hnames ▸ rfl) hget
  rw [Machine.run_succ hstep]
  clear hdecoded hstep hget
  obtain ⟨_, _, _, code, _, _, _, _, _⟩ := main
  dsimp only at hcode hlocals hnames
  subst hlocals hnames
  rcases hcode with rfl | rfl
  all_goals
    set_option maxRecDepth 10000 in
    cbv

theorem run_nil {main : Routine Value} {g : Globals} {h : Heap} {world : World}
    (hcode : main.code = chunkOfNil.encode (chunkOfCallTwice.encode #[]))
    (hlocals : main.localCount = 0) :
    ((Machine.start main 8 g h world).run ⟨.standard, #[stop]⟩ 2).left? =
      some (1, #[.nil], "") := by
  obtain ⟨_, _, _, code, _, _, _, _, _⟩ := main
  dsimp only at hcode hlocals
  subst hcode hlocals
  set_option maxRecDepth 10000 in
  cbv

theorem parse_stop_nil : ∃ a outer inner place b d, parse "stop()()\nnil" =
    .ok ⟨[.expr a (callTwice outer inner place "stop"), .expr b (.nil d)]⟩ :=
  ⟨_, _, _, _, _, _, by cbv⟩

theorem stopSession_get :
    ∃ id, stopSession.globals.get? "stop" = some (.builtin id (.host "stop" 0)) :=
  (Globals.standard_host stop .empty).2

section
variable (a outer inner place b d : Span) (world : World)

/-- The two calls are compiled and halt with `true` on top, and `nil` can be compiled and run after
them. -/
theorem stop_then_nil : ∃ c c' : Compiler,
    stopSession.compiler.compile ⟨[.expr a (callTwice outer inner place "stop")]⟩ =
      .ok (⟨0, c.code.size⟩, c) ∧
    (∃ m, (Machine.start c.main 0 stopSession.globals stopSession.heap world).run
      ⟨.standard, #[stop]⟩ 6 = .halted m ∧ m.stack = #[.nil, .bool true] ∧ m.output = "") ∧
    c.compile ⟨[.expr b (.nil d)]⟩ = .ok (⟨c.code.size, c'.code.size⟩, c') ∧
    ∀ g h world, ∃ m, (Machine.start c'.main c.code.size g h world).run ⟨.standard, #[stop]⟩ 2 =
      .halted m ∧ m.stack = #[.nil] ∧ m.output = "" := by
  have hfresh : stopSession.compiler.Fresh := Compiler.fresh_start _ _
  obtain ⟨id, hget⟩ := stopSession_get
  obtain ⟨c, hc, hcode, hnames⟩ := Compiler.compile_callTwice a outer inner place "stop" hfresh
  obtain ⟨c', hc', hcode'⟩ := c.compile_nil b d
  have hbefore : c.code = chunkOfCallTwice.encode #[] := hcode
  refine ⟨c, c', hc, ?_, hc', fun g h world => ?_⟩
  · obtain ⟨m, hm, -, hleft⟩ := Outcome.halted_of_left? (run_stop (.inl hcode) rfl hnames hget)
    exact ⟨m, hm, hleft⟩
  · rw [hbefore] at hcode' ⊢
    obtain ⟨m, hm, -, hleft⟩ := Outcome.halted_of_left? (run_nil hcode' rfl)
    exact ⟨m, hm, hleft⟩

/-- Both as one program halt in the frame of the second call. -/
theorem stop_and_nil : ∃ c : Compiler,
    stopSession.compiler.compile
        ⟨[.expr a (callTwice outer inner place "stop"), .expr b (.nil d)]⟩ =
      .ok (⟨0, c.code.size⟩, c) ∧
    ∃ m, (Machine.start c.main 0 stopSession.globals stopSession.heap world).run
      ⟨.standard, #[stop]⟩ 6 = .halted m ∧ m.frames.size = 2 ∧ m.stack = #[.nil, .bool true] := by
  have hfresh : stopSession.compiler.Fresh := Compiler.fresh_start _ _
  obtain ⟨id, hget⟩ := stopSession_get
  obtain ⟨c, hc, hcode, hnames⟩ :=
    Compiler.compile_callTwice_nil a outer inner place "stop" hfresh b d
  obtain ⟨m, hm, hframes, hstack, -⟩ :=
    Outcome.halted_of_left? (run_stop (.inr hcode) rfl hnames hget)
  exact ⟨c, hc, m, hm, hframes, hstack⟩

end

/-- The host's function is a constant. Still `nil` is not what `stop()()` and `nil` in one come to,
as the code that it hands out halts in the second call. -/
theorem stop_splits_a_program : PatientHost #[stop] ∧ ∃ first second r₁ s₁ t₁ r₂ s₂ t₂ r s',
    parse "stop()()\nnil" = .ok ⟨[first, second]⟩ ∧
    stopSession.compile ⟨[first]⟩ = (.ok r₁, s₁) ∧ s₁.Ends r₁ ⟨.ok (.bool true), ""⟩ t₁ ∧
    t₁.compile ⟨[second]⟩ = (.ok r₂, s₂) ∧ s₂.Ends r₂ ⟨.ok .nil, ""⟩ t₂ ∧
    stopSession.compile ⟨[first, second]⟩ = (.ok r, s') ∧
    ∀ text t, ¬ s'.Ends r ⟨.ok .nil, text⟩ t := by
  have hpatient : PatientHost #[stop] := by
    intro f hf args s
    obtain rfl := Array.mem_singleton.1 hf
    rfl
  have hsound : stopSession.compiler.Sound :=
    Session.sound_start .standard #[stop] .empty (.start 0 0)
  obtain ⟨a, outer, inner, place, b, d, hparse⟩ := parse_stop_nil
  obtain ⟨c₁, c₂, hc₁, ⟨m₁, hm₁, hstack₁, houtput₁⟩, hc₂, hrun₂⟩ :=
    stop_then_nil a outer inner place b d { stopSession.world with cancelled := false }
  obtain ⟨c, hc, m, hm, -, hstack⟩ :=
    stop_and_nil a outer inner place b d { stopSession.world with cancelled := false }
  have hends₁ := Session.ends_of_halted { stopSession with compiler := c₁ } ⟨0, c₁.code.size⟩ hm₁
  rw [Machine.top?, hstack₁, houtput₁] at hends₁
  have hsound₁ : c₁.Sound := (Compiler.compile_spec hsound hc₁).1
  obtain ⟨m₂, hm₂, hstack₂, houtput₂⟩ := hrun₂ m₁.globals m₁.heap
    { m₁.world with cancelled := false }
  let t₁ := Session.resume { stopSession with compiler := c₁ } m₁
  have hends₂ := Session.ends_of_halted { t₁ with compiler := c₂ }
    ⟨c₁.code.size, c₂.code.size⟩ hm₂
  rw [Machine.top?, hstack₂, houtput₂] at hends₂
  have hends := Session.ends_of_halted { stopSession with compiler := c } ⟨0, c.code.size⟩ hm
  rw [Machine.top?, hstack] at hends
  refine ⟨hpatient, _, _, _, _, t₁, _, _, _, _, _, hparse,
    (Session.compile_eq_ok_iff hsound).2 ⟨c₁, hc₁, rfl⟩, hends₁,
    (Session.compile_eq_ok_iff hsound₁).2 ⟨c₂, hc₂, rfl⟩, hends₂,
    (Session.compile_eq_ok_iff hsound).2 ⟨c, hc, rfl⟩, fun text t hnil => ?_⟩
  cases hnil.answer_eq hends

end Ember
