import Mathlib
import Ember.Proofs.Compile.Stores
import Ember.Proofs.Session.Splits

/-! The names of a session over its life. Whatever programs are compiled and run, in any number and
order, and wherever runs fail or are given up, only names that programs have declared at the top
level are bound, and these are no builtins; so the builtins keep the values that they have at the
start. Functions may still have parameters and variables of the same names. -/
namespace Ember
set_option autoImplicit false

open CompileM

/-! ## The names at the start -/

theorem Session.contains_start {settings : Settings} {host : Array HostFunction} {heap : Heap}
    {world : World} {name : String} :
    (start settings host heap world).compiler.builtins.contains name = true ↔
      (start settings host heap world).globals.isBuiltin name = true :=
  Compiler.contains_start.trans OrderedMap.contains_iff_mem_keys.symm

/-! ## Moments -/

theorem Bindings.mono {allowed allowed' : String → Prop} {heap : Heap} {globals : Globals}
    (h : Bindings allowed heap globals) (himp : ∀ n, allowed n → allowed' n) :
    Bindings allowed' heap globals :=
  ⟨h.heap.imp (tameOnly_mono himp), fun name v hv => tameOnly_mono himp _ (h.globals name v hv),
    fun n hn => himp n (h.bound n hn)⟩

namespace Moment

/-- The names as they are bound at the moment. -/
def globals (w : Moment) : Globals :=
  match w.machine with
  | none => w.session.globals
  | some m => m.globals

/-- Names are bound only if they have been declared, code that has been compiled stores to such
names only, and the builtins are those of the first session. -/
structure Guarded (first : Session) (w : Moment) : Prop where
  host : TameHost w.session.surroundings.host
  known : w.session.compiler.builtins = first.compiler.builtins
  compiler : Careful w.session.compiler.builtins w.session.compiler.state
  chunks : ∀ range ∈ w.chunks, w.session.compiler.Guards range.start
  builtins : w.globals.builtins = first.globals.builtins
  state : match w.machine with
    | none => Bindings w.session.compiler.state.Declares w.session.heap w.session.globals
    | some m => m.Tame w.session.compiler.state.Declares

end Moment

theorem Lived.guarded {first : Session} {w : Moment}
    (hfirst : Moment.Guarded first ⟨first, [], none, .empty⟩) (h : Lived first w) :
    w.Guarded first := by
  induction h with
  | start => exact hfirst
  | @compile s s' chunks L p range _ hcompile ih =>
    rw [Session.compile_eq ih.compiler.ready] at hcompile
    cases hok : s.compiler.compile p with
    | error e =>
      rw [hok] at hcompile
      cases hcompile
    | ok found =>
      rw [hok] at hcompile
      cases hcompile
      obtain ⟨hknown, hcareful, happended, hguards, hkeeps⟩ :=
        Compiler.compile_careful ih.compiler hok
      refine ⟨ih.host, hknown.trans ih.known, hcareful, fun r hr => ?_, ih.builtins,
        Bindings.mono ih.state fun _ => happended.declares⟩
      rcases List.mem_cons.1 hr with rfl | hr
      · exact hguards
      · exact hkeeps _ (ih.chunks r hr)
  | @launch s chunks L range world _ hrange ih =>
    refine ⟨ih.host, ih.known, ih.compiler, ih.chunks, ih.builtins, ?_⟩
    exact .start (ih.chunks range hrange).place ih.compiler.constants ih.state world
  | step _ _ hstep ih =>
    have hends := Machine.Tame.step ih.host ih.state
    unfold Action.Ends at hends
    rw [hstep] at hends
    obtain ⟨htame, -, hbuiltins⟩ := hends
    exact ⟨ih.host, ih.known, ih.compiler, ih.chunks, hbuiltins.trans ih.builtins, htame rfl⟩
  | halt _ hstep ih =>
    have hends := Machine.Tame.step ih.host ih.state
    unfold Action.Ends at hends
    rw [hstep] at hends
    obtain ⟨-, hbindings, hbuiltins⟩ := hends
    exact ⟨ih.host, ih.known, ih.compiler, ih.chunks, hbuiltins.trans ih.builtins, hbindings⟩
  | fail _ hstep ih =>
    have hends := Machine.Tame.step ih.host ih.state
    unfold Action.Ends at hends
    rw [hstep] at hends
    obtain ⟨hbindings, hbuiltins⟩ := hends
    exact ⟨ih.host, ih.known, ih.compiler, ih.chunks, hbuiltins.trans ih.builtins, hbindings⟩
  | abandon _ ih =>
    exact ⟨ih.host, ih.known, ih.compiler, ih.chunks, ih.builtins, Machine.Tame.bindings ih.state⟩

theorem guarded_start (settings : Settings) {host : Array HostFunction} {heap : Heap}
    (world : World) (hhost : TameHost host) (hheap : ∀ allowed, heap.Obeys (tameOnly allowed)) :
    Moment.Guarded (Session.start settings host heap world)
      ⟨Session.start settings host heap world, [], none, .empty⟩ := by
  refine ⟨hhost, rfl, Compiler.careful_start _ _, nofun, rfl, ?_⟩
  obtain ⟨hglobals, hkept⟩ := Globals.standard_obeys host (hheap _)
  refine ⟨hkept.obeys, hglobals, fun n hn => ?_⟩
  have hnone : (Globals.standard host heap).1.session.contains n = true := hn
  rw [Globals.session_standard, OrderedMap.contains_iff_mem_keys, OrderedMap.keys_empty] at hnone
  exact absurd hnone (Array.not_mem_empty n)

namespace Moment.Guarded

variable {first : Session} {w : Moment}

/-- A name that is bound has been declared. -/
theorem declared (h : w.Guarded first) {name : String}
    (hname : w.globals.session.contains name = true) : w.session.compiler.state.Declares name := by
  obtain ⟨s, chunks, machine, L⟩ := w
  cases machine with
  | none => exact Bindings.bound h.state name hname
  | some m => exact Machine.Tame.bound h.state name hname

/-- So the name of a builtin is not bound, and it is looked up among the builtins. -/
theorem get?_eq (h : w.Guarded first) {name : String}
    (hname : first.compiler.builtins.contains name = true) :
    w.globals.get? name = first.globals.builtins.get? name := by
  have hfree : w.globals.session.get? name = none := by
    cases hget : w.globals.session.get? name with
    | none => rfl
    | some v =>
      have hbound : w.globals.session.contains name = true :=
        OrderedMap.contains_iff_mem_keys.2
          (Array.mem_map.2 ⟨_, OrderedMap.mem_entries_of_get? hget, rfl⟩)
      have hbuiltin := h.compiler.free name (h.declared hbound)
      rw [h.known, hname] at hbuiltin
      cases hbuiltin
  unfold Globals.get?
  rw [hfree, h.builtins]

end Moment.Guarded

/-! ## Variables with the name of a builtin -/

/-- In the function that is being compiled the name is a variable: it is read from its slot, and an
assignment to it stores there. -/
def CompileState.Shadows (builtins : Std.HashSet String) (s : CompileState) (name : String) :
    Prop :=
  ∃ slot, ∀ span, compileExpr builtins (.ident span name) s = .ok (#[.op ⟨.loadFast, [slot]⟩], s) ∧
    assignmentTarget builtins name span s = .ok (.slot slot, s)

/-- A function with a slot left gets a variable of any name, and keeps those that it has. -/
theorem Scope.declare_variable {a : Scope} (hkind : a.kind = .function)
    (hroom : a.locals.size < slotLimit) (name : String) :
    ∃ slot b, a.declare name = (some (.slot slot), b) ∧ b.kind = .function ∧
      b.locals.size ≤ a.locals.size + 1 ∧
      ∀ n, b.locals.contains n = true ↔ a.locals.contains n = true ∨ n = name := by
  unfold declare
  rw [hkind]
  dsimp only
  cases hposition : a.locals.position? name with
  | some slot =>
    refine ⟨slot, a, rfl, hkind, Nat.le_succ _, fun n => ⟨.inl, fun hn => ?_⟩⟩
    rcases hn with hn | rfl
    · exact hn
    · rw [OrderedMap.contains_eq_isSome, hposition]
      rfl
  | none =>
    refine ⟨a.locals.size, { a with locals := a.locals.insert name () }, ?_, hkind,
      Nat.le_of_eq (OrderedMap.size_insert_of_none hposition ()), fun n => ?_⟩
    · rw [← hkind]
      exact if_pos hroom
    · rw [OrderedMap.contains_iff_mem_keys, OrderedMap.contains_iff_mem_keys,
        OrderedMap.mem_keys_insert]

section
variable {builtins : Std.HashSet String} {s : CompileState} {scope : Scope} {outer : List Scope}

theorem inFunction_of_scope (hscopes : s.scopes = scope :: outer) (hkind : scope.kind = .function) :
    inFunction s = .ok (true, s) := by
  change Except.ok ((s.scopes.head?.map Scope.isFunction).getD false, s) = _
  rw [hscopes]
  simp [Scope.isFunction, hkind]

theorem shadows_of_local (hscopes : s.scopes = scope :: outer) (hkind : scope.kind = .function)
    (hroom : scope.locals.size ≤ Scope.slotLimit) {name : String}
    (hname : scope.locals.contains name = true) : s.Shadows builtins name := by
  rw [OrderedMap.contains_eq_isSome, Option.isSome_iff_exists] at hname
  obtain ⟨slot, hslot⟩ := hname
  have hfits : slot < Nat.pow 256 2 := Nat.lt_of_lt_of_le (OrderedMap.position?_lt hslot) hroom
  have hscope : Scope.resolve name s.scopes = (.slot slot, s.scopes) := by
    rw [hscopes, Scope.resolve, hkind]
    dsimp only
    rw [hslot]
  have hresolve : resolve name s = .ok (.slot slot, s) := by
    change Except.ok ((Scope.resolve name s.scopes).1,
      { s with scopes := (Scope.resolve name s.scopes).2 }) = _
    rw [hscope]
  refine ⟨slot, fun span => ⟨?_, ?_⟩⟩
  · have hload : loadSymbol (.slot slot) span s = .ok (.op ⟨.loadFast, [slot]⟩, s) := by
      have hfit : misfit? [slot] Opcode.loadFast.widths = none := if_pos hfits
      unfold loadSymbol emit
      dsimp only
      rw [hfit]
      rfl
    rw [compileExpr]
    exact bind_eq_ok.2 ⟨_, s, hresolve, bind_pure_eq_ok.2 ⟨_, hload, rfl⟩⟩
  · unfold assignmentTarget
    exact bind_eq_ok.2 ⟨_, s, inFunction_of_scope hscopes hkind, bind_eq_ok.2 ⟨_, s, hresolve, rfl⟩⟩

/-- Any name can be declared in a function that has a slot left. -/
theorem declare_shadows (hscopes : s.scopes = scope :: outer) (hkind : scope.kind = .function)
    (hroom : scope.locals.size < Scope.slotLimit) (name : String) (span : Span) :
    ∃ symbol s', declare builtins name span s = .ok (symbol, s') ∧ s'.Shadows builtins name := by
  obtain ⟨slot, scope', hdeclare, hkind', hsize, hlocals⟩ := scope.declare_variable hkind hroom name
  refine ⟨.slot slot, { s with scopes := scope' :: outer }, ?_,
    shadows_of_local rfl hkind' (by omega) ((hlocals name).2 (.inr rfl))⟩
  obtain ⟨pools, scopes, nextId⟩ := s
  obtain rfl : scopes = scope :: outer := hscopes
  unfold declare
  refine bind_eq_ok.2 ⟨_, _, inFunction_of_scope rfl hkind, ?_⟩
  rw [if_neg (by simp)]
  unfold declareHere
  dsimp only
  rw [hdeclare]

/-- The parameters of a function are variables of it. -/
theorem parameterScope_variables (name : String) {params : List String}
    (hcount : params.length ≤ maxArguments) (span : Span) (s : CompileState) :
    ∃ scope, parameterScope name params span s = .ok (scope, s) ∧ scope.kind = .function ∧
      scope.locals.size ≤ Scope.slotLimit ∧ ∀ n, (Scope.function name).locals.contains n = true ∨
        n ∈ params → scope.locals.contains n = true := by
  unfold parameterScope
  have hkind : (Scope.function name).kind = .function := rfl
  have hroom : (Scope.function name).locals.size + params.length ≤ Scope.slotLimit := by
    rw [show (Scope.function name).locals.size = 0 from rfl, Nat.zero_add]
    exact Nat.le_trans hcount (by decide)
  clear hcount
  generalize Scope.function name = start at hkind hroom ⊢
  induction params generalizing start with
  | nil => exact ⟨start, rfl, hkind, hroom, fun n hn => hn.resolve_right List.not_mem_nil⟩
  | cons param rest ih =>
    rw [List.length_cons] at hroom
    obtain ⟨slot, next, hdeclare, hkind', hsize, hlocals⟩ :=
      start.declare_variable hkind (by omega) param
    obtain ⟨scope, hrest, hscope, hfits, hkeeps⟩ := ih next hkind' (by omega)
    refine ⟨scope, ?_, hscope, hfits, fun n hn => hkeeps n ?_⟩
    · rw [List.foldlM_cons, hdeclare]
      exact hrest
    · rw [hlocals, or_assoc, ← List.mem_cons]
      exact hn

end

/-- Functions can have parameters and variables of any name. -/
structure Shadowing (builtins : Std.HashSet String) : Prop where
  locals : ∀ (s : CompileState) (scope : Scope) (outer : List Scope), s.scopes = scope :: outer →
    scope.kind = .function → scope.locals.size < Scope.slotLimit → ∀ name span, ∃ symbol s',
      declare builtins name span s = .ok (symbol, s') ∧ s'.Shadows builtins name
  parameters : ∀ (name : String) (params : List String) (span : Span) (s : CompileState),
    params.length ≤ maxArguments → ∃ scope, parameterScope name params span s = .ok (scope, s) ∧
      ∀ param ∈ params, ∀ (s' : CompileState) (outer : List Scope), s'.scopes = scope :: outer →
        s'.Shadows builtins param

theorem shadowing (builtins : Std.HashSet String) : Shadowing builtins where
  locals _ _ _ hscopes hkind hroom name span := declare_shadows hscopes hkind hroom name span
  parameters name params span s hcount := by
    obtain ⟨scope, hparams, hkind, hfits, hlocals⟩ := parameterScope_variables name hcount span s
    exact ⟨scope, hparams, fun param hparam s' outer hscopes =>
      shadows_of_local hscopes hkind hfits (hlocals param (.inr hparam))⟩

/-! ## Builtins -/

/-- Whatever is done with the session between runs, it comes to such a moment again, with the chunks
that there were and the new one. -/
structure Moment.GoesOn (first : Session) (w : Moment) : Prop where
  load : ∀ source, ∃ chunks L, Lived first ⟨(w.session.load source).2, chunks, none, L⟩ ∧
    (∀ range ∈ w.chunks, range ∈ chunks) ∧
    ∀ range, (w.session.load source).1 = .ok range → range ∈ chunks
  execute : ∀ range ∈ w.chunks, ∃ L, Lived first ⟨(w.session.execute range).2, w.chunks, none, L⟩
  evaluate : ∀ source, ∃ chunks L, Lived first ⟨(w.session.evaluate source).2, chunks, none, L⟩ ∧
    ∀ range ∈ w.chunks, range ∈ chunks

theorem Lived.goesOn {first : Session} {w : Moment} (hfirst : first.compiler.Sound)
    (h : Lived first w) (hnone : w.machine = none) : w.GoesOn first := by
  obtain ⟨s, chunks, machine, L⟩ := w
  obtain rfl : machine = none := hnone
  refine ⟨fun source => ?_, fun range hrange => h.execute hrange,
    fun source => h.after_evaluate hfirst source⟩
  obtain ⟨chunks', hlived⟩ := h.after_load hfirst source
  exact ⟨chunks', L, hlived⟩

/-- At every moment of the life of a session, the names that are bound have been declared at the top
level and are no builtins, and a builtin has the value that it has at the start. The host should
hand out no code that stores to other names. -/
theorem builtins_stay_bound (settings : Settings) (host : Array HostFunction) (heap : Heap)
    (world : World) (hhost : TameHost host) (hheap : ∀ allowed, heap.Obeys (tameOnly allowed))
    (w : Moment) (h : Lived (Session.start settings host heap world) w) :
    (∀ name, w.globals.session.contains name = true →
      w.session.compiler.scope.declared.contains name = true ∧ w.globals.isBuiltin name = false) ∧
    (∀ name, w.globals.isBuiltin name =
      (Session.start settings host heap world).globals.isBuiltin name) ∧
    (∀ name, w.globals.isBuiltin name = true → ∃ v,
      (Session.start settings host heap world).globals.builtins.get? name = some v ∧
        w.globals.get? name = some v) ∧
    (w.machine = none → w.GoesOn (Session.start settings host heap world)) ∧
    Shadowing w.session.compiler.builtins := by
  have hstart := guarded_start settings world hhost hheap
  have hguarded := h.guarded hstart
  have hsame : ∀ name, w.globals.isBuiltin name =
      (Session.start settings host heap world).globals.isBuiltin name := by
    intro name
    rw [Globals.isBuiltin, Globals.isBuiltin, hguarded.builtins]
  refine ⟨fun name hname => ?_, hsame, fun name hname => ?_,
    h.goesOn hstart.compiler.ready, shadowing _⟩
  · have hdeclared := hguarded.declared hname
    have hfree := hguarded.compiler.free name hdeclared
    refine ⟨(Compiler.declares_state hguarded.compiler.ready).1 hdeclared, ?_⟩
    rw [hguarded.known] at hfree
    rw [hsame, ← Bool.not_eq_true, ← Session.contains_start, hfree]
    decide
  · rw [hsame] at hname
    obtain ⟨⟨other, v⟩, hentry, rfl⟩ := Array.mem_map.1 (OrderedMap.contains_iff_mem_keys.1 hname)
    have hvalue := OrderedMap.get?_eq_some_of_mem hentry
    rw [hguarded.get?_eq (Session.contains_start.2 hname)]
    exact ⟨v, hvalue, hvalue⟩

/-- A function of a host that gives back what it is given. -/
def echo : HostFunction := ⟨"echo", fun args s => (args.getD 0 .nil, s)⟩

theorem tameHost_echo : TameHost #[echo] := by
  intro allowed f hf args s hargs hheap
  obtain rfl := Array.mem_singleton.1 hf
  refine ⟨?_, hheap⟩
  change (args.getD 0 .nil).Obeys _
  rw [Array.getD_eq_getD_getElem?]
  cases hfirst : args[0]? with
  | none => exact Value.obeys_of_plain rfl rfl
  | some v => exact hargs v (Array.mem_of_getElem? hfirst)

/-- A function that assigns to a parameter of this name does not rebind the builtin. -/
theorem builtins_stay_bound_echo : TameHost #[echo] ∧ ∃ id,
    (Session.start .standard #[echo] .empty (.start 0 0)).globals.get? "echo" =
      some (.builtin id (.host "echo" 0)) ∧
    ((Session.start .standard #[echo] .empty (.start 0 0)).evaluate
      "func f(echo) { echo = 1 }\nf(echo)").2.globals.get? "echo" =
        some (.builtin id (.host "echo" 0)) := by
  have hheap : ∀ allowed, Heap.empty.Obeys (tameOnly allowed) := fun _ => Heap.obeys_empty _
  obtain ⟨hbuiltin, id, hget⟩ := Globals.standard_host echo .empty
  obtain ⟨chunks, L, hlived⟩ := Lived.start.evaluate
    (Session.sound_start .standard #[echo] .empty (.start 0 0))
    "func f(echo) { echo = 1 }\nf(echo)"
  obtain ⟨-, -, hfirst, -⟩ := builtins_stay_bound .standard #[echo] .empty (.start 0 0)
    tameHost_echo hheap _ .start
  obtain ⟨-, hsame, hlater, -⟩ := builtins_stay_bound .standard #[echo] .empty (.start 0 0)
    tameHost_echo hheap _ hlived
  obtain ⟨v, hv, hv'⟩ := hfirst "echo" hbuiltin
  obtain ⟨v', hw, hw'⟩ := hlater "echo" ((hsame "echo").trans hbuiltin)
  cases hv.symm.trans hw
  exact ⟨tameHost_echo, id, hget, hw'.trans (hv'.symm.trans hget)⟩

/-! ## A host that rebinds a builtin -/

/-- Code that no program is compiled to: it binds the name `swap`. -/
def rebindsSwap : Routine Value where
  id := 0
  name := "f"
  params := #[]
  code := Fragment.encode
    #[.op ⟨.pushTrue, []⟩, .op ⟨.storeGlobal, [0]⟩, .op ⟨.returnValue, [0]⟩] #[]
  constants := #[]
  names := #["swap"]
  localCount := 0
  freeVariables := #[]
  scope := ⟨.function, "f", #[]⟩

/-- A function of a host that hands out such code. -/
def swap : HostFunction := ⟨"swap", fun _ s => (.function rebindsSwap, s)⟩

def swapSession : Session := .start .standard #[swap] .empty (.start 0 0)

/-- The names after a run that has halted. -/
def Outcome.globals? : Outcome → Option Globals
  | .halted m => some m.globals
  | _ => none

theorem run_swap {main : Routine Value} {g : Globals} {h : Heap} {id : Nat} {world : World}
    (hcode : main.code = chunkOfCallTwice.encode #[]) (hlocals : main.localCount = 0)
    (hnames : main.names = #["swap"]) (hget : g.get? "swap" = some (.builtin id (.host "swap" 0))) :
    ((Machine.start main 0 g h world).run ⟨.standard, #[swap]⟩ 7).globals? =
      some (g.set "swap" (.bool true)) := by
  have hdecoded : decode main.code 0 = .ok ⟨.loadName, [0]⟩ := by
    rw [hcode]
    decide
  have hstep : Action.step ⟨.standard, #[swap]⟩ (.start main 0 g h world) = _ :=
    Action.step_loadName rfl (Nat.zero_le _) hdecoded (hnames ▸ rfl) hget
  rw [Machine.run_succ hstep]
  clear hdecoded hstep hget
  obtain ⟨_, _, _, code, _, _, _, _, _⟩ := main
  dsimp only at hcode hlocals hnames
  subst hcode hlocals hnames
  set_option maxRecDepth 10000 in
  cbv

/-- A session ends up with the names that a run leaves. -/
theorem Session.globals_execute {s : Session} {range : CodeRange} {fuel : Nat} {g : Globals}
    (hrun : ((Machine.start s.main range.start s.globals s.heap
      { s.world with cancelled := false }).run s.surroundings fuel).globals? = some g)
    (hfuel : fuel ≤ Machine.ample) : (s.execute range).2.globals = g := by
  unfold execute executeFor
  dsimp only
  cases hended : (Machine.start s.main range.start s.globals s.heap
      { s.world with cancelled := false }).run s.surroundings fuel with
  | halted m =>
    rw [hended] at hrun
    cases hrun
    rw [Machine.run_of_ended hended nofun hfuel]
  | failed failure m =>
    rw [hended] at hrun
    cases hrun
  | running m =>
    rw [hended] at hrun
    cases hrun

theorem Globals.get?_set_self (g : Globals) (name : String) (v : Value) :
    (g.set name v).get? name = some v := by
  unfold get? set
  dsimp only
  rw [OrderedMap.get?_insert_self]

/-- The host's function is a builtin, and still it has another value after a run. -/
theorem swap_is_rebound :
    swapSession.globals.isBuiltin "swap" = true ∧
    swapSession.globals.get? "swap" ≠ some (.bool true) ∧
    (swapSession.evaluate "swap()()").2.globals.session.contains "swap" = true ∧
    (swapSession.evaluate "swap()()").2.globals.get? "swap" = some (.bool true) := by
  obtain ⟨hbuiltin, id, hget⟩ := Globals.standard_host swap .empty
  have hget : swapSession.globals.get? "swap" = some (.builtin id (.host "swap" 0)) := hget
  obtain ⟨a, b, d, e, hparse⟩ : ∃ a b d e, parse "swap()()" =
      .ok ⟨[.expr a (callTwice b d e "swap")]⟩ := ⟨_, _, _, _, by cbv⟩
  have hsound : swapSession.compiler.Sound :=
    Session.sound_start .standard #[swap] .empty (.start 0 0)
  have hfresh : swapSession.compiler.Fresh := Compiler.fresh_start _ _
  obtain ⟨c, hcompile, hcode, hnames⟩ := Compiler.compile_callTwice a b d e "swap" hfresh
  have hafter : (swapSession.evaluate "swap()()").2.globals =
      swapSession.globals.set "swap" (.bool true) := by
    unfold Session.evaluate Session.load
    rw [hparse]
    dsimp only
    rw [Session.compile_eq hsound, hcompile]
    exact Session.globals_execute (run_swap hcode rfl hnames hget) (by decide)
  refine ⟨hbuiltin, ?_, ?_, ?_⟩
  · rw [hget]
    intro h
    cases h
  · rw [hafter, OrderedMap.contains_iff_mem_keys]
    exact OrderedMap.mem_keys_insert.2 (.inr rfl)
  · rw [hafter]
    exact Globals.get?_set_self _ _ _

end Ember
