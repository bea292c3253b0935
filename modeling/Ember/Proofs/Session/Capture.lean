import Mathlib
import Ember.Proofs.Capture.Closures
import Ember.Proofs.Machine.Calls
import Ember.Proofs.Session.Safety
import Ember.Proofs.Session.Verification

/-! Closures over the life of a session. Programs are compiled and run one after the other, in any
number and order; at every moment of every run the ledger says which call has the variable that a
cell holds, and each step acts on variables as the law says. -/
namespace Ember
set_option autoImplicit false

open CompileM

/-! ## The names at the start -/

section
variable {P : Policy}

theorem Globals.addBuiltin_obeys {heap : Heap} {acc : Globals × Heap}
    (hacc : acc.1.Obeys P ∧ heap.Kept P acc.2) (name : String) {value : Nat → Value}
    (hvalue : ∀ id, (value id).Obeys P) :
    (acc.1.addBuiltin acc.2 name value).1.Obeys P ∧
      heap.Kept P (acc.1.addBuiltin acc.2 name value).2 := by
  refine ⟨fun other v hv => ?_, hacc.2.trans hacc.2.obeys.newId⟩
  have hother := hacc.1 other
  unfold Globals.get? at hv hother
  unfold Globals.addBuiltin at hv
  dsimp only [Heap.newId] at hv
  cases hsession : acc.1.session.get? other with
  | some w =>
    rw [hsession] at hv hother
    exact hother v hv
  | none =>
    rw [hsession] at hv hother
    by_cases hname : other = name
    · rw [hname, OrderedMap.get?_insert_self] at hv
      cases hv
      exact hvalue _
    · rw [OrderedMap.get?_insert_of_ne _ hname] at hv
      exact hother v hv

/-- The builtins make no closure and no cell. -/
theorem Globals.standard_obeys (host : Array HostFunction) {heap : Heap} (hheap : heap.Obeys P) :
    (Globals.standard host heap).1.Obeys P ∧ heap.Kept P (Globals.standard host heap).2 := by
  unfold standard addHost
  dsimp only
  rw [← Array.foldl_toList, ← Array.foldl_toList]
  refine List.foldlRecOn (motive := fun acc : Globals × Heap => acc.1.Obeys P ∧ heap.Kept P acc.2)
    _ _ ?_ fun acc hacc slot _ => ?_
  · refine List.foldlRecOn
      (motive := fun acc : Globals × Heap => acc.1.Obeys P ∧ heap.Kept P acc.2) _ _ ?_
      fun acc hacc l _ => addBuiltin_obeys hacc _ fun _ => Value.obeys_of_plain rfl rfl
    exact List.foldlRecOn
      (motive := fun acc : Globals × Heap => acc.1.Obeys P ∧ heap.Kept P acc.2) _ _
      ⟨obeys_empty P, .refl hheap⟩
      fun acc hacc f _ => addBuiltin_obeys hacc _ fun _ => Value.obeys_of_plain rfl rfl
  · split
    · exact addBuiltin_obeys hacc _ fun _ => Value.obeys_of_plain rfl rfl
    · exact hacc

end

theorem Globals.session_standard (host : Array HostFunction) (heap : Heap) :
    (Globals.standard host heap).1.session = .empty := by
  unfold standard addHost
  dsimp only
  rw [← Array.foldl_toList, ← Array.foldl_toList]
  refine List.foldlRecOn (motive := fun acc : Globals × Heap => acc.1.session = .empty) _ _ ?_
    fun acc hacc slot _ => ?_
  · refine List.foldlRecOn (motive := fun acc : Globals × Heap => acc.1.session = .empty) _ _ ?_
      fun acc hacc l _ => hacc
    exact List.foldlRecOn (motive := fun acc : Globals × Heap => acc.1.session = .empty) _ _ rfl
      fun acc hacc f _ => hacc
  · split
    · exact hacc
    · exact hacc

/-- The only function of a host is found under its name. -/
theorem Globals.standard_host (f : HostFunction) (heap : Heap) :
    (Globals.standard #[f] heap).1.isBuiltin f.name = true ∧ ∃ id,
      (Globals.standard #[f] heap).1.get? f.name = some (.builtin id (.host f.name 0)) := by
  obtain ⟨g, h, hstandard⟩ : ∃ g h, standard #[f] heap = addHost #[f] g h := ⟨_, _, rfl⟩
  have hbuiltins : (standard #[f] heap).1.builtins =
      g.builtins.insert f.name (.builtin h.newId.1 (.host f.name 0)) := by
    rw [hstandard]
    rfl
  constructor
  · rw [isBuiltin, hbuiltins, OrderedMap.contains_iff_mem_keys, OrderedMap.mem_keys_insert]
    exact .inr rfl
  · refine ⟨h.newId.1, ?_⟩
    unfold get?
    rw [session_standard, hbuiltins, OrderedMap.get?_insert_self]
    simp [OrderedMap.get?, OrderedMap.empty]

/-! ## Moments -/

/-- A moment in the life of a session, with the ledger of its runs. -/
structure Moment where
  session : Session
  /-- The chunks that have been compiled. -/
  chunks : List CodeRange
  /-- The machine, while a chunk runs. -/
  machine : Option Machine
  ledger : Ledger

/-- The session after a run has come to `m`. -/
def Session.resume (s : Session) (m : Machine) : Session :=
  { s with globals := m.globals, heap := m.heap, world := m.world }

/-- The moments that a session can come to. Programs are compiled between runs; a run begins with
any chunk that has been compiled, goes on step by step, and ends when a step halts or fails or when
it is given up. -/
inductive Lived (first : Session) : Moment → Prop
  | start : Lived first ⟨first, [], none, .empty⟩
  | compile {s s' : Session} {chunks : List CodeRange} {L : Ledger} {p : Program}
      {range : CodeRange} (h : Lived first ⟨s, chunks, none, L⟩)
      (hcompile : s.compile p = (.ok range, s')) : Lived first ⟨s', range :: chunks, none, L⟩
  | launch {s : Session} {chunks : List CodeRange} {L : Ledger} {range : CodeRange} (world : World)
      (h : Lived first ⟨s, chunks, none, L⟩) (hrange : range ∈ chunks) :
      Lived first ⟨s, chunks, some (.start s.main range.start s.globals s.heap world),
        L.launch s.main⟩
  | step {s : Session} {chunks : List CodeRange} {L : Ledger} {m m' : Machine} {ins : Instruction}
      (h : Lived first ⟨s, chunks, some m, L⟩) (hdecoded : decode m.function.code m.ip = .ok ins)
      (hstep : Action.step s.surroundings m = .ok false m') :
      Lived first ⟨s, chunks, some m', L.after ins m m'⟩
  | halt {s : Session} {chunks : List CodeRange} {L : Ledger} {m m' : Machine}
      (h : Lived first ⟨s, chunks, some m, L⟩)
      (hstep : Action.step s.surroundings m = .ok true m') :
      Lived first ⟨s.resume m', chunks, none, L⟩
  | fail {s : Session} {chunks : List CodeRange} {L : Ledger} {m m' : Machine} {fault : Fault}
      (h : Lived first ⟨s, chunks, some m, L⟩)
      (hstep : Action.step s.surroundings m = .error fault m') :
      Lived first ⟨s.resume m', chunks, none, L⟩
  | abandon {s : Session} {chunks : List CodeRange} {L : Ledger} {m : Machine}
      (h : Lived first ⟨s, chunks, some m, L⟩) : Lived first ⟨s.resume m, chunks, none, L⟩

/-- What holds at every moment. -/
structure Moment.Tracked (w : Moment) : Prop where
  host : DiscreetHost w.session.surroundings.host
  compiler : w.session.compiler.Sound
  chunks : ∀ range ∈ w.chunks, ∃ row plan, Planned w.session.main range.start row plan
  state : match w.machine with
    | none => Store w.ledger w.session.heap w.session.globals
    | some m => Tracks w.ledger m

theorem Compiler.Sound.built {c : Compiler} (hc : c.Sound) : Built c.main :=
  ⟨hc.constant, fun g hg => (Ready.feeds hc g hg).mono (extends_main hc), Ready.compiled hc,
    Nat.zero_le _⟩

/-- A run that begins is tracked. -/
theorem Store.launch {L : Ledger} {heap : Heap} {globals : Globals} (h : Store L heap globals)
    {c : Compiler} (hc : c.Sound) {start : Nat} {row : List Instruction} {plan : Plan}
    (hplanned : Planned c.main start row plan) (world : World) :
    Tracks (L.launch c.main) (.start c.main start globals heap world) := by
  have hext := L.extends_launch c.main
  have hkind := Compiler.kind_main hc
  have hactivation : Activation (L.launch c.main) (.new c.main 0 c.main.localCount)
      L.calls.size := by
    refine ⟨?_, hc.built, Nat.zero_le _, fun hfunction => ?_, nofun, nofun, fun i k hk => ?_, nofun⟩
    · exact Array.getElem?_push_size
    · rw [show c.main.scope.kind = .function from hfunction] at hkind
      cases hkind
    · have := h.begun _ (Array.mem_of_getElem? hk)
      exact absurd this (Nat.lt_irrefl _)
  have hone : ∀ {α : Type} {x y : α} {k : Nat}, #[x][k]? = some y → k = 0 ∧ y = x := by
    intro α x y k hk
    cases k with
    | zero => exact ⟨rfl, (Option.some.inj hk).symm⟩
    | succ k => simp at hk
  refine ⟨⟨rfl, fun a ha => ?_, fun j k a hj hk => ?_, fun k a frame ha hframe => ?_,
    fun frame hframe => ?_, fun k frame hframe => ?_, fun k frame next hframe hnext => ?_⟩,
    h.grow hext rfl, _, .values 0, rfl, rfl, ?_, ⟨#[], #[], rfl, rfl, nofun, .nil⟩⟩
  · rw [List.mem_singleton.1 (Array.mem_toList_iff.2 ha)]
    show L.calls.size < (L.calls.push c.main).size
    simp
  · rw [(hone hj).1, (hone hk).1]
  · rw [(hone ha).2, (hone hframe).2]
    exact hactivation
  · rw [(hone hframe).2]
    exact hkind
  · have := (hone hframe).1
    omega
  · have := (hone hnext).1
    omega
  · exact ⟨_, _, plan, hplanned, hplanned.entry_shape⟩

namespace Lived

variable {first s : Session} {w : Moment} {chunks : List CodeRange} {L : Ledger} {m : Machine}

theorem tracked (hfirst : Moment.Tracked ⟨first, [], none, .empty⟩) (h : Lived first w) :
    w.Tracked := by
  induction h with
  | start => exact hfirst
  | @compile s s' chunks L p range _ hcompile ih =>
    rw [Session.compile_eq ih.compiler] at hcompile
    cases hok : s.compiler.compile p with
    | error e =>
      rw [hok] at hcompile
      cases hcompile
    | ok found =>
      rw [hok] at hcompile
      cases hcompile
      obtain ⟨hsound, -, -, -, row, plan, hplanned, -⟩ := Compiler.compile_spec ih.compiler hok
      obtain ⟨hext, more, hcode⟩ := Compiler.compile_keeps ih.compiler hok
      refine ⟨ih.host, hsound, fun r hr => ?_, ih.state⟩
      rcases List.mem_cons.1 hr with rfl | hr
      · exact ⟨_, plan, hplanned⟩
      · obtain ⟨row, plan, hearlier⟩ := ih.chunks r hr
        exact ⟨row, plan, hearlier.mono hext hcode⟩
  | @launch s chunks L range world _ hrange ih =>
    obtain ⟨row, plan, hplanned⟩ := ih.chunks range hrange
    exact ⟨ih.host, ih.compiler, ih.chunks, ih.state.launch ih.compiler hplanned world⟩
  | step _ hdecoded hstep ih =>
    obtain ⟨frame, a, ins, -, -, hdecoded', hends⟩ := Tracks.step ih.host ih.state
    rw [hdecoded] at hdecoded'
    cases hdecoded'
    unfold Action.Ends at hends
    rw [hstep] at hends
    exact ⟨ih.host, ih.compiler, ih.chunks, hends.1⟩
  | halt _ hstep ih =>
    obtain ⟨frame, a, ins, -, -, -, hends⟩ := Tracks.step ih.host ih.state
    unfold Action.Ends at hends
    rw [hstep] at hends
    exact ⟨ih.host, ih.compiler, ih.chunks, hends⟩
  | fail _ hstep ih =>
    obtain ⟨frame, a, ins, -, -, -, hends⟩ := Tracks.step ih.host ih.state
    unfold Action.Ends at hends
    rw [hstep] at hends
    exact ⟨ih.host, ih.compiler, ih.chunks, hends⟩
  | abandon _ ih => exact ⟨ih.host, ih.compiler, ih.chunks, Tracks.store ih.state⟩

theorem sound (hfirst : first.compiler.Sound) (h : Lived first w) : w.session.compiler.Sound := by
  induction h with
  | start => exact hfirst
  | @compile s s' chunks L p range _ hcompile ih =>
    rw [Session.compile_eq ih] at hcompile
    cases hok : s.compiler.compile p with
    | error e =>
      rw [hok] at hcompile
      cases hcompile
    | ok found =>
      rw [hok] at hcompile
      cases hcompile
      exact (Compiler.compile_spec ih hok).1
  | launch _ _ _ ih | step _ _ _ ih | halt _ _ ih | fail _ _ ih | abandon _ ih => exact ih

/-- Whatever a run comes to is such a moment. -/
theorem run (h : Lived first ⟨s, chunks, some m, L⟩) (fuel : Nat) :
    match m.run s.surroundings fuel with
    | .running m' => ∃ L', Lived first ⟨s, chunks, some m', L'⟩
    | .halted m' | .failed _ m' => ∃ L', Lived first ⟨s.resume m', chunks, none, L'⟩ := by
  induction fuel generalizing m L with
  | zero => exact ⟨L, h⟩
  | succ fuel ih =>
    rw [Machine.run]
    cases hstep : Action.step s.surroundings m with
    | error fault m' => exact ⟨L, h.fail hstep⟩
    | ok halted m' =>
      cases halted with
      | true => exact ⟨L, h.halt hstep⟩
      | false =>
        obtain ⟨ins, hdecoded, -⟩ := Action.step_eq_ok hstep
        exact ih (h.step hdecoded hstep)

theorem running (h : Lived first ⟨s, chunks, some m, L⟩) {k : Nat} {m' : Machine}
    (hrun : m.run s.surroundings k = .running m') : ∃ L', Lived first ⟨s, chunks, some m', L'⟩ := by
  have hlived := h.run k
  rwa [hrun] at hlived

theorem execute (h : Lived first ⟨s, chunks, none, L⟩) {range : CodeRange}
    (hrange : range ∈ chunks) : ∃ L', Lived first ⟨(s.execute range).2, chunks, none, L'⟩ := by
  have hrun := (h.launch { s.world with cancelled := false } hrange).run Machine.ample
  unfold Session.execute Session.executeFor
  dsimp only [Session.main] at hrun ⊢
  split
  · rename_i m' hm
    rw [hm] at hrun
    exact hrun
  · rename_i failure m' hm
    rw [hm] at hrun
    exact hrun
  · rename_i m' hm
    rw [hm] at hrun
    obtain ⟨L', hlived⟩ := hrun
    exact ⟨L', hlived.abandon⟩

/-- So is what comes of adding a text to the code, whether it is accepted or refused. -/
theorem after_load (hfirst : first.compiler.Sound) (h : Lived first ⟨s, chunks, none, L⟩)
    (source : String) : ∃ chunks', Lived first ⟨(s.load source).2, chunks', none, L⟩ ∧
      (∀ range ∈ chunks, range ∈ chunks') ∧
      ∀ range, (s.load source).1 = .ok range → range ∈ chunks' := by
  unfold Session.load
  cases hparse : parse source with
  | error e => exact ⟨chunks, h, fun _ hmem => hmem, nofun⟩
  | ok p =>
    dsimp only
    have hcompile := Session.compile_eq (h.sound hfirst) p
    cases hok : s.compiler.compile p with
    | error e =>
      rw [hok] at hcompile
      rw [hcompile]
      exact ⟨chunks, h, fun _ hmem => hmem, nofun⟩
    | ok found =>
      rw [hok] at hcompile
      refine ⟨found.1 :: chunks, ?_, fun _ hmem => List.mem_cons_of_mem _ hmem,
        fun range hrange => ?_⟩
      · have hlived := h.compile hcompile
        rwa [hcompile]
      · rw [hcompile] at hrange
        cases hrange
        exact List.mem_cons_self

/-- So is whatever the evaluation of a text comes to. -/
theorem after_evaluate (hfirst : first.compiler.Sound) (h : Lived first ⟨s, chunks, none, L⟩)
    (source : String) : ∃ chunks' L', Lived first ⟨(s.evaluate source).2, chunks', none, L'⟩ ∧
      ∀ range ∈ chunks, range ∈ chunks' := by
  obtain ⟨chunks', hlived, hkept, hmem⟩ := h.after_load hfirst source
  unfold Session.evaluate
  rcases hload : s.load source with ⟨result, s'⟩
  rw [hload] at hlived hmem
  cases result with
  | error e => exact ⟨chunks', L, hlived, hkept⟩
  | ok range =>
    obtain ⟨L', hexecuted⟩ := hlived.execute (hmem range rfl)
    exact ⟨chunks', L', hexecuted, hkept⟩

theorem evaluate (hfirst : first.compiler.Sound) (h : Lived first ⟨s, chunks, none, L⟩)
    (source : String) : ∃ chunks' L', Lived first ⟨(s.evaluate source).2, chunks', none, L'⟩ := by
  obtain ⟨chunks', L', hlived, -⟩ := h.after_evaluate hfirst source
  exact ⟨chunks', L', hlived⟩

end Lived

theorem tracked_start (settings : Settings) {host : Array HostFunction} (world : World)
    (hhost : DiscreetHost host) :
    Moment.Tracked ⟨Session.start settings host .empty world, [], none, .empty⟩ := by
  obtain ⟨hglobals, hkept⟩ := Globals.standard_obeys host (Heap.obeys_empty (binding .empty))
  exact ⟨hhost, Session.sound_start settings host .empty world, nofun,
    (congrArg Array.size hkept.cells).symm, nofun, nofun, hkept.obeys, hglobals⟩

/-! ## The law of capture -/

/-- Each variable has one place, and no two calls share one: cells hold one variable each, and those
in the slots of a call hold its own variables. -/
structure Apart (L : Ledger) (m : Machine) : Prop where
  cells : ∀ (c c' : Nat) (x : Variable), L.owners[c]? = some x → L.owners[c']? = some x → c = c'
  calls : ∀ j k a : Nat, L.active[j]? = some a → L.active[k]? = some a → j = k
  slots : ∀ (k a : Nat) (frame : Frame), L.active[k]? = some a → m.frames[k]? = some frame →
    L.calls[a]? = some frame.function ∧ ∀ (i : Nat) (c : CellRef),
      frame.locals[i]? = some (.cell c) ↔ L.owners[c.index]? = some ⟨a, i⟩
  contents : ∀ (x : Variable) (v w : Value), L.Contents m.heap m.frames x v →
    L.Contents m.heap m.frames x w → v = w

theorem Tracks.apart {L : Ledger} {m : Machine} (h : Tracks L m) : Apart L m where
  cells := h.store.distinct
  calls := h.calls.distinct
  slots k a frame ha hframe := by
    have hactivation := h.calls.activation k a frame ha hframe
    exact ⟨hactivation.function, fun i c => ⟨hactivation.owned i c, hactivation.moved i c.index⟩⟩
  contents _ _ _ hv hw := contents_unique h.calls h.store hv hw

/-- Over the whole life of a session, closures take the cells of the variables that their functions
name, every access to a variable acts on its one place, and what the ledger knows of calls and cells
stays true, also after calls have returned. The host has no part in this: the code that it hands out
is compiled code, and it makes no cells and changes none. -/
theorem closures_capture_variables (settings : Settings) (host : Array HostFunction) (world : World)
    (hhost : DiscreetHost host) (w : Moment)
    (h : Lived (Session.start settings host .empty world) w) :
    (w.machine = none → ∀ source, ∃ chunks L, Lived (Session.start settings host .empty world)
      ⟨(w.session.evaluate source).2, chunks, none, L⟩) ∧
    ∀ m, w.machine = some m → Apart w.ledger m ∧
      ∃ frame a ins, m.frames.back? = some frame ∧ w.ledger.active.back? = some a ∧
        decode m.function.code m.ip = .ok ins ∧
        ∀ m', Action.step w.session.surroundings m = .ok false m' →
          w.ledger.Extends (w.ledger.after ins m m') ∧
          Lawful w.ledger frame a ins m (w.ledger.after ins m m') m' := by
  have hfirst := tracked_start settings world hhost
  obtain ⟨s, chunks, machine, L⟩ := w
  refine ⟨fun hnone source => ?_, fun m hm => ?_⟩
  · cases hnone
    exact h.evaluate hfirst.compiler source
  · cases hm
    have htracked := h.tracked hfirst
    obtain ⟨frame, a, ins, hframe, ha, hdecoded, hends⟩ := Tracks.step htracked.host htracked.state
    refine ⟨Tracks.apart htracked.state, frame, a, ins, hframe, ha, hdecoded, fun m' hstep => ?_⟩
    unfold Action.Ends at hends
    rw [hstep] at hends
    exact ⟨L.extends_after ins m m', hends.2⟩

/-! ## A closure that is under way -/

/-- The program `func(x) { return func() { return x } }(nil)`. -/
def closureOfParameter : Program := ⟨[
  .expr .start (.call .start (.func .start ["x"]
    [.return .start (some (.func .start [] [.return .start (some (.ident .start "x"))]))])
    [.nil .start])]⟩

/-- The code of the chunk, which calls the function. -/
def callsIt : Fragment :=
  #[.op ⟨.loadConst, [0]⟩, .op ⟨.pushNil, []⟩, .op ⟨.call, [1]⟩, .op ⟨.halt, []⟩]

/-- The code of the function, which constructs the closure. -/
def closesOverIt : Fragment := returnsClosure.push (.op ⟨.returnValue, [0]⟩)

theorem compile_closureOfParameter {c : Compiler} (hc : c.Fresh) :
    ∃ (c' : Compiler) (f g : Routine Value),
      c.compile closureOfParameter = .ok (⟨0, c'.code.size⟩, c') ∧
      c'.main.code = callsIt.encode #[] ∧ c'.main.constants = #[.function f] ∧
      f.code = closesOverIt.encode #[] ∧ f.constants = #[.function g] ∧ f.localCount = 1 ∧
      f.params = #["x"] ∧ g.freeVariables = #[⟨"x", .slot 0⟩] := by
  obtain ⟨g, hfree, hreturn⟩ := compileStmt_capturing anonymous "x" c.builtins [.topLevel "main"]
    c.nextId .start .start .start .start
  have hbody : compileStmts c.builtins false
      [.return .start (some (.func .start [] [.return .start (some (.ident .start "x"))]))] #[]
      ⟨.empty, [.withParameter anonymous "x", .topLevel "main"], c.nextId⟩ = .ok (returnsClosure,
        ⟨Pools.empty.addConstant (.function g), [.withParameter anonymous "x", .topLevel "main"],
          c.nextId + 1⟩) := by
    rw [compileStmts]
    exact bind_pure_eq_ok.2 ⟨_, hreturn, rfl⟩
  obtain ⟨f, hf, hcode, hconstants, hslots, hparams⟩ := compileFunction_withParameter
    (s := ⟨.empty, [.topLevel "main"], c.nextId⟩) anonymous "x" c.builtins .start hbody rfl
  have hfunc : compileExpr c.builtins (.func .start ["x"]
        [.return .start (some (.func .start [] [.return .start (some (.ident .start "x"))]))])
      ⟨.empty, [.topLevel "main"], c.nextId⟩ = .ok (#[.op ⟨.loadConst, [0]⟩],
        ⟨Pools.empty.addConstant (.function f), [.topLevel "main"], c.nextId + 2⟩) := by
    rw [compileExpr]
    exact hf
  have hchunk : compileChunk c.builtins closureOfParameter.statements #[]
      ⟨.empty, [.topLevel "main"], c.nextId⟩ = .ok (callsIt,
        ⟨Pools.empty.addConstant (.function f), [.topLevel "main"], c.nextId + 2⟩) := by
    refine bind_pure_eq_ok.2 ⟨callsIt.pop, ?_, rfl⟩
    rw [compileExpr]
    refine bind_eq_ok.2 ⟨(), _, rfl, bind_eq_ok.2 ⟨_, _, hfunc, ?_⟩⟩
    refine bind_eq_ok.2 ⟨callsIt.pop.pop, _, ?_, rfl⟩
    rw [compileExprs]
    refine bind_pure_eq_ok.2 ⟨#[.op ⟨.pushNil, []⟩], ?_, rfl⟩
    rw [compileExpr]
    rfl
  obtain ⟨c', hcompile, hcode', hconstants', -⟩ := Compiler.compile_first hc hchunk
  exact ⟨c', f, g, hcompile, hcode', hconstants', hcode, hconstants, hslots, hparams, hfree⟩

/-- What a run executes next, if it goes on after it, and the constants of the function that it is
in. -/
def Outcome.next? (su : Surroundings) :
    Outcome → Option (Except DecodeError Instruction × Option (Array Value))
  | .running m =>
    match Action.step su m with
    | .ok false _ => some (decode m.function.code m.ip,
        m.frames.back?.map fun frame => frame.function.constants)
    | _ => none
  | _ => none

theorem Outcome.running_of_next? {su : Surroundings} {r : Outcome}
    {ins : Except DecodeError Instruction} {constants : Option (Array Value)}
    (h : r.next? su = some (ins, constants)) :
    ∃ m m', r = .running m ∧ Action.step su m = .ok false m' ∧ decode m.function.code m.ip = ins ∧
      (m.frames.back?.map fun frame => frame.function.constants) = constants := by
  cases r with
  | running m =>
    unfold next? at h
    dsimp only at h
    split at h
    · rename_i m' hstep
      cases h
      exact ⟨m, m', rfl, hstep, rfl, rfl⟩
    · cases h
  | _ => cases h

theorem next_closureOfParameter {main f k : Routine Value} {g : Globals} {h : Heap} {world : World}
    (hcode : main.code = callsIt.encode #[]) (hlocals : main.localCount = 0)
    (hconstants : main.constants = #[.function f]) (hbody : f.code = closesOverIt.encode #[])
    (hinner : f.constants = #[.function k]) (hslots : f.localCount = 1)
    (hparams : f.params = #["x"]) :
    ((Machine.start main 0 g h world).run ⟨.standard, #[]⟩ 4).next? ⟨.standard, #[]⟩ =
      some (.ok ⟨.loadClosure, [0, 1]⟩, some #[.function k]) := by
  obtain ⟨_, _, _, code, _, _, _, _, _⟩ := main
  obtain ⟨_, _, _, code, _, _, _, _, _⟩ := f
  dsimp only at hcode hlocals hconstants hbody hinner hslots hparams
  subst hcode hlocals hconstants hbody hinner hslots hparams
  set_option maxRecDepth 10000 in
  cbv

/-- After four steps the parameter has moved to a cell, and the closure that is made next takes this
cell, which is the one in the slot of the call. -/
theorem closures_capture_variables_of_parameter : ∃ w m m' frame a st id g c,
    Lived (Session.start .standard #[] .empty (.start 0 0)) w ∧ w.machine = some m ∧
      Apart w.ledger m ∧ m.frames.back? = some frame ∧ w.ledger.active.back? = some a ∧
      decode m.function.code m.ip = .ok ⟨.loadClosure, [0, 1]⟩ ∧
      Action.step w.session.surroundings m = .ok false m' ∧
      m'.stack = Array.push st (.closure id g #[c]) ∧ g.freeVariables = #[⟨"x", .slot 0⟩] ∧
      frame.locals[0]? = some (.cell c) ∧ frame.function.scope.slots[0]? = some "x" ∧
      w.ledger.owners[c.index]? = some ⟨a, 0⟩ := by
  have hhost : DiscreetHost #[] := nofun
  have hfirst := tracked_start .standard (.start 0 0) hhost
  have hfresh : (Session.start .standard #[] .empty (.start 0 0)).compiler.Fresh :=
    Compiler.fresh_start _ _
  obtain ⟨c, f, g, hok, hcode, hconstants, hbody, hinner, hslots, hparams, hfree⟩ :=
    compile_closureOfParameter hfresh
  have hcompile := Session.compile_eq hfirst.compiler closureOfParameter
  rw [hok] at hcompile
  obtain ⟨m, m', hm, hstep, hdecoded, hfunction⟩ := Outcome.running_of_next?
    (next_closureOfParameter hcode rfl hconstants hbody hinner hslots hparams)
  obtain ⟨L, hlived⟩ :=
    ((Lived.start.compile hcompile).launch (.start 0 0) List.mem_cons_self).running hm
  obtain ⟨hapart, frame, a, ins, hframe, ha, hdecoded', hlaw⟩ :=
    (closures_capture_variables .standard #[] (.start 0 0) hhost _ hlived).2 m rfl
  cases hdecoded.symm.trans hdecoded'
  obtain ⟨-, -, g', id, cells, st, hg', hstack, hsize, hcells⟩ := hlaw m' hstep
  -- the function of the closure is the constant of the function that makes it
  rw [hframe] at hfunction
  rw [show frame.function.constants = #[.function g] from Option.some.inj hfunction] at hg'
  cases hg'
  rw [hfree] at hsize
  obtain ⟨cell, rfl⟩ := Array.size_eq_one_iff.1 hsize
  have hcell := hcells 0 ⟨"x", .slot 0⟩ cell (by rw [hfree]; rfl) rfl
  exact ⟨_, m, m', frame, a, st, id, g, cell, hlived, rfl, hapart, hframe, ha, hdecoded, hstep,
    hstack, hfree, hcell⟩

end Ember
