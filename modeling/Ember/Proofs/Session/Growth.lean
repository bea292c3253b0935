import Ember.Proofs.Bytecode.RoundTrip
import Ember.Proofs.Machine.Places
import Ember.Proofs.Machine.Stretches
import Ember.Proofs.Machine.Twins
import Ember.Proofs.Session.Verification

/-! The code of a session only grows. Whatever is asked of a session, and whether it succeeds or
not, its instructions, constants and names so far stay where they are. A chunk can therefore be run
again at any later time: as long as it is not in a function, the run finds the instructions,
constants and names that the chunk had when it was compiled. -/
namespace Ember
set_option autoImplicit false

/-! ## Code that goes on -/

/-- The code and the tables of `g` begin with those of `f`. -/
structure Routine.Continues (f g : Routine Value) : Prop where
  code : f.code.toList <+: g.code.toList
  constants : f.constants.toList <+: g.constants.toList
  names : f.names.toList <+: g.names.toList

/-- At an offset both functions have the instruction, with what it reads from the tables. -/
structure Routine.SameAt (f g : Routine Value) (pos : Nat) (ins : Instruction) : Prop where
  decoded : decode f.code pos = .ok ins
  decoded' : decode g.code pos = .ok ins
  constant : ins.op.readsConstant = true →
    ∃ v, f.constants[ins.operand 0]? = some v ∧ g.constants[ins.operand 0]? = some v
  name : ins.op.readsName = true →
    ∃ n, f.names[ins.operand 0]? = some n ∧ g.names[ins.operand 0]? = some n

theorem getElem?_of_isPrefix {α : Type} {a b : Array α} (h : a.toList <+: b.toList) {i : Nat}
    {x : α} (hi : a[i]? = some x) : b[i]? = some x := by
  obtain ⟨more, hmore⟩ := h
  rw [← Array.getElem?_toList] at hi ⊢
  rw [← hmore]
  rw [List.getElem?_append_left (List.getElem?_eq_some_iff.1 hi).1]
  exact hi

namespace Routine.Continues

variable {f g k : Routine Value}

theorem refl (f : Routine Value) : f.Continues f :=
  ⟨List.prefix_refl _, List.prefix_refl _, List.prefix_refl _⟩

theorem trans (h : f.Continues g) (h' : g.Continues k) : f.Continues k :=
  ⟨h.code.trans h'.code, h.constants.trans h'.constants, h.names.trans h'.names⟩

theorem exists_code (h : f.Continues g) : ∃ more, g.code = f.code ++ more := by
  obtain ⟨more, hmore⟩ := h.code
  refine ⟨more.toArray, Array.toList_inj.1 ?_⟩
  rw [Array.toList_append]
  exact hmore.symm

theorem decode_eq (h : f.Continues g) {pos : Nat} {ins : Instruction}
    (hdecoded : decode f.code pos = .ok ins) : decode g.code pos = .ok ins := by
  obtain ⟨more, hmore⟩ := h.exists_code
  rw [hmore]
  exact (Instruction.wellFormed_of_decode hdecoded).decode_eq
    ((Instruction.hasBytes_of_decode hdecoded).append more)

/-- What an instruction finds is still there when code and tables have grown. -/
theorem sameAt (h : f.Continues g) {pos : Nat} {ins : Instruction}
    (hdecoded : decode f.code pos = .ok ins) (hoperands : checkOperands f ins = .ok ()) :
    f.SameAt g pos ins := by
  refine ⟨hdecoded, h.decode_eq hdecoded, fun hreads => ?_, fun hreads => ?_⟩
  · obtain ⟨v, hv⟩ := exists_constant hoperands hreads
    exact ⟨v, hv, getElem?_of_isPrefix h.constants hv⟩
  · obtain ⟨n, hn⟩ := exists_name hoperands hreads
    exact ⟨n, hn, getElem?_of_isPrefix h.names hn⟩

end Routine.Continues

/-! ## Requests -/

/-- The code of the second compiler goes on where that of the first one ends. -/
structure Compiler.Continues (c c' : Compiler) : Prop where
  main : c.main.Continues c'.main
  tables : Routine.Extends c.main c'.main

namespace Compiler.Continues

theorem refl (c : Compiler) : c.Continues c := ⟨.refl _, .refl _⟩

theorem trans {c c' c'' : Compiler} (h : c.Continues c') (h' : c'.Continues c'') :
    c.Continues c'' := ⟨h.main.trans h'.main, h.tables.trans h'.tables⟩

/-- A program is added behind what is there. -/
theorem of_compile {c c' : Compiler} {p : Program} {range : CodeRange} (hc : c.Sound)
    (h : c.compile p = .ok (range, c')) : c.Continues c' := by
  obtain ⟨htables, more, hmore⟩ := compile_keeps hc h
  obtain ⟨fragment, s, hchunk, -, rfl⟩ := compile_eq_ok h
  have happended : Appended c.state
      (CompileM.left (compileChunk c.builtins p.statements #[]) c.state) :=
    compileChunk_appends p.statements #[] c.state
  rw [left_of_ok hchunk] at happended
  refine ⟨⟨?_, happended.constants, ?_⟩, htables⟩
  · rw [hmore, Array.toList_append]
    exact List.prefix_append _ _
  · obtain ⟨rest, hrest⟩ := happended.names
    refine ⟨rest.map Prod.fst, ?_⟩
    change (c.pools.names.entries.map Prod.fst).toList ++ _ =
      (s.pools.names.entries.map Prod.fst).toList
    rw [Array.toList_map, Array.toList_map, ← List.map_append]
    exact congrArg _ hrest

/-- What was planned once is planned for good. -/
theorem planned {c c' : Compiler} (h : c.Continues c') {start : Nat} {row : List Instruction}
    {plan : Plan} (hplanned : Planned c.main start row plan) : Planned c'.main start row plan := by
  obtain ⟨more, hmore⟩ := h.main.exists_code
  exact hplanned.mono h.tables hmore

end Compiler.Continues

namespace Session

variable {s : Session}

theorem continues_compile (hs : s.compiler.Sound) (p : Program) :
    s.compiler.Continues (s.compile p).2.compiler := by
  rw [compile_eq hs]
  cases hok : s.compiler.compile p with
  | error e => exact .refl _
  | ok found => exact .of_compile hs hok

theorem continues_load (hs : s.compiler.Sound) (source : String) :
    s.compiler.Continues (s.load source).2.compiler := by
  unfold load
  split
  · exact .refl _
  · exact continues_compile hs _

/-- One request, whatever comes of it. -/
theorem continues_serve (hs : s.compiler.Sound) (r : Request) :
    s.compiler.Continues (s.serve r).2.compiler := by
  cases r with
  | evaluate source =>
    have hload := continues_load hs source
    dsimp only [serve, evaluate]
    rcases hfound : s.load source with ⟨result, s'⟩
    rw [hfound] at hload
    cases result with
    | error e => exact hload
    | ok range =>
      dsimp only
      rw [compiler_execute]
      exact hload
  | load source => exact continues_load hs source
  | compile p => exact continues_compile hs p
  | execute range =>
    dsimp only [serve]
    rw [compiler_execute]
    exact .refl _

theorem continues_serveAll (hs : s.compiler.Sound) (requests : List Request) :
    s.compiler.Continues (s.serveAll requests).2.compiler := by
  induction requests generalizing s with
  | nil => exact .refl _
  | cons r rest ih => exact (continues_serve hs r).trans (ih (sound_serve hs r))

theorem sound_serveAll (hs : s.compiler.Sound) (requests : List Request) :
    (s.serveAll requests).2.compiler.Sound := by
  induction requests generalizing s with
  | nil => exact hs
  | cons r rest ih => exact ih (sound_serve hs r)

theorem serveAll_append (s : Session) (earlier later : List Request) :
    (s.serveAll (earlier ++ later)).2 = ((s.serveAll earlier).2.serveAll later).2 := by
  induction earlier generalizing s with
  | nil => rfl
  | cons r rest ih => exact ih (s.serve r).2

end Session

/-! ## Runs of a chunk -/

section
variable {f : Routine Value} {start : Nat} {row : List Instruction} {plan : Plan}

/-- The outermost call is of the function, at a place that the plan gives a shape. -/
def Plan.Holds (plan : Plan) (f : Routine Value) (start : Nat) (places : List Place) : Prop :=
  ∃ front pos s, places = front ++ [(f, pos)] ∧ plan.shapeFrom start pos = some s

/-- A move of the outermost call leads to a place of the plan; other moves leave it where it is. -/
theorem Planned.holds_moves (h : Planned f start row plan) (here : Place) (rest : List Place)
    (ins : Instruction) (next : List Place) (hholds : plan.Holds f start (here :: rest))
    (hdecoded : decode here.1.code here.2 = .ok ins) (hmoves : Place.Moves ins here rest next) :
    plan.Holds f start next := by
  obtain ⟨front, pos, s, hplaces, hs⟩ := hholds
  cases front with
  | nil =>
    obtain ⟨rfl, rfl⟩ := List.cons.inj hplaces
    obtain ⟨ins', s', hdecoded', -, -, -, hfalls, hjump⟩ := h.visit hs
    cases hdecoded.symm.trans hdecoded'
    cases hmoves with
    | goesOn hnext =>
      rcases hnext with ⟨hfalls', rfl⟩ | htarget
      · exact ⟨[], _, s', rfl, hfalls hfalls'⟩
      · obtain ⟨t, ht, hshape⟩ := hjump (isJump_of_target htarget)
        cases htarget.symm.trans ht
        exact ⟨[], _, s', rfl, hshape⟩
    | enters hcall =>
      refine ⟨[(_, 0)], _, s', rfl, hfalls ?_⟩
      unfold Instruction.fallsThrough
      rw [hcall]
    | leaves hreturn hrest => exact absurd rfl hrest
  | cons first front =>
    obtain ⟨rfl, rfl⟩ := List.cons.inj hplaces
    cases hmoves with
    | goesOn hnext => exact ⟨_ :: front, pos, s, rfl, hs⟩
    | enters hcall => exact ⟨_ :: _ :: front, pos, s, rfl, hs⟩
    | leaves hreturn hrest => exact ⟨front, pos, s, rfl, hs⟩

/-- Outside of functions, a run of planned code is at a place of the plan. -/
theorem Planned.shape_of_run (h : Planned f start row plan) {su : Surroundings} {globals : Globals}
    {heap : Heap} {world : World} {fuel : Nat} {n : Machine}
    (hrun : (Machine.start f start globals heap world).run su fuel = .running n)
    (hone : n.frames.size = 1) :
    n.function = f ∧ ∃ s, plan.shapeFrom start n.ip = some s := by
  have hstart : plan.Holds f start [(f, start)] := ⟨[], start, _, rfl, h.entry_shape⟩
  obtain ⟨⟨front, pos, s, hplaces, hs⟩, rest, hlocated⟩ := Machine.run_places h.holds_moves
    (Machine.located_start f start globals heap world) hstart hrun
  have hlength := n.length_places
  rw [hplaces, hone, List.length_append, List.length_singleton] at hlength
  obtain rfl : front = [] := List.length_eq_zero_iff.1 (by omega)
  obtain ⟨hfunction, hip⟩ := Prod.mk.inj (List.cons.inj (hplaces.symm.trans hlocated)).1
  exact ⟨hfunction.symm, s, hip ▸ hs⟩

end

/-! ## Sessions -/

/-- The code of a session so far and its tables are the beginning of what they are after more
requests. A program that is compiled is added at the end; and whenever its chunk is run later on,
each instruction outside of functions is one that the chunk had when it was compiled, with the same
constants and names. -/
theorem sessions_only_append (settings : Settings) (host : Array HostFunction) (heap : Heap)
    (world : World) (earlier : List Request) :
    (∀ later : List Request,
      ((Session.start settings host heap world).serveAll earlier).2.main.Continues
        ((Session.start settings host heap world).serveAll (earlier ++ later)).2.main) ∧
    ∀ (p : Program) (range : CodeRange) (t : Session),
      ((Session.start settings host heap world).serveAll earlier).2.compile p = (.ok range, t) →
      range.start =
        ((Session.start settings host heap world).serveAll earlier).2.main.code.size ∧
      range.stop = t.main.code.size ∧
      ∀ (later : List Request) (u : Session), (t.serveAll later).2 = u →
        ∀ (su : Surroundings) (globals : Globals) (heap : Heap) (world : World) (fuel : Nat)
          (m : Machine),
          (Machine.start u.main range.start globals heap world).run su fuel = .running m →
          m.frames.size = 1 →
          m.function = u.main ∧ range.start ≤ m.ip ∧
            ∃ ins, t.main.SameAt u.main m.ip ins ∧ m.ip + ins.size ≤ range.stop := by
  have hsound := Session.sound_serveAll (Session.sound_start settings host heap world) earlier
  constructor
  · intro later
    rw [Session.serveAll_append]
    exact (Session.continues_serveAll hsound later).main
  · generalize ((Session.start settings host heap world).serveAll earlier).2 = s at hsound ⊢
    intro p range t hcompile
    rw [Session.compile_eq hsound] at hcompile
    split at hcompile
    · cases hcompile
    · rename_i range' compiler hok
      cases hcompile
      obtain ⟨hsound', -, hstart, hstop, row, plan, hplanned, hsize⟩ :=
        Compiler.compile_spec hsound hok
      refine ⟨hstart, hstop, ?_⟩
      rintro later u rfl su globals heap world fuel m hrun hone
      have hcontinues := Session.continues_serveAll (s := { s with compiler }) hsound' later
      obtain ⟨hfunction, shape, hshape⟩ := (hcontinues.planned hplanned).shape_of_run hrun hone
      obtain ⟨ins, shape', hdecoded, hle, hge, hadmits, -⟩ := hplanned.visit hshape
      exact ⟨hfunction, hge, ins, hcontinues.main.sameAt hdecoded hadmits.operands, hsize ▸ hle⟩

/-- A function that does nothing. -/
def idleFunction : Program := ⟨[.expr .start (.func .start [] [])]⟩

/-- The instruction that loads the function still does so when a loop has been compiled, too. -/
theorem sessions_only_append_loop :
    ∃ range t, (Session.start .standard #[] .empty (.start 0 0)).compile idleFunction =
        (.ok range, t) ∧
      ∃ ins, t.main.SameAt (t.serveAll [.compile loopAndFunctions]).2.main range.start ins := by
  have hok : ((Session.start .standard #[] .empty (.start 0 0)).compiler.compile
      idleFunction).isOk = true := by decide +kernel
  have hcompile := Session.compile_eq
    (Session.sound_start .standard #[] .empty (.start 0 0)) idleFunction
  split at hcompile
  · rename_i e he
    rw [he] at hok
    cases hok
  · refine ⟨_, _, hcompile, ?_⟩
    obtain ⟨-, -, hlater⟩ := (sessions_only_append .standard #[] .empty (.start 0 0) []).2
      idleFunction _ _ hcompile
    obtain ⟨-, -, ins, hsame, -⟩ := hlater [.compile loopAndFunctions] _ rfl ⟨.standard, #[]⟩
      .empty .empty (.start 0 0) 0 _ rfl rfl
    exact ⟨ins, hsame⟩

end Ember
