import Ember.Proofs.Verify.Soundness

/-! Cells that are missing. The verifier compares free variables with the list of the function, a
run with the cells of the frame, and the two agree where functions with free variables are made into
closures before they are called. Nothing makes sure of that for functions that are loaded as they
are: such code is accepted, too, and its runs can fail. -/
namespace Ember
set_option autoImplicit false

/-! ## Code that a run can reach -/

/-- The code itself, the functions that it loads, those that they load, and so on. -/
inductive Reached (main : Routine Value) (range : CodeRange) : Routine Value → CodeRange → Prop
  | main : Reached main range main range
  | loaded {f g : Routine Value} {r : CodeRange} {op : Opcode} (h : Reached main range f r)
      (hop : op = .loadConst ∨ op = .loadClosure) (hloads : Loads f r op g) :
      Reached main range g g.range

theorem Loads.mem {f g : Routine Value} {r : CodeRange} {op : Opcode} (h : Loads f r op g) :
    Value.function g ∈ f.constants := by
  obtain ⟨pos, ins, -, -, -, hg⟩ := h
  exact Array.mem_of_getElem? hg

/-- No functions and closures may occur but builtins. -/
def functionless : Policy :=
  ⟨fun v => v.isPlain = true ∨ ∃ c, v = .cell c, fun _ h _ => .inl h⟩

theorem soundValue_of_functionless {v : Value} (h : functionless.allows v) : SoundValue v := by
  rcases h with h | ⟨c, rfl⟩
  · exact .plain h
  · exact .cell c

section

variable {main : Routine Value} {range : CodeRange}

theorem disciplined_of_reached
    (hconstants : ∀ f r, Reached main range f r → ∀ v ∈ f.constants,
      v.isPlain = true ∨ ∃ g, v = .function g)
    (hbare : ∀ f r g, Reached main range f r → Loads f r .loadConst g → g.freeVariables.size = 0)
    {f : Routine Value} {r : CodeRange} (h : Reached main range f r) : Disciplined f r := by
  have hloaded : ∀ g op, op = .loadConst ∨ op = .loadClosure → Loads f r op g →
      Disciplined g g.range := by
    intro g op hop hloads
    have hsmaller : sizeOf g < sizeOf f := by
      obtain ⟨pos, ins, -, -, -, hg⟩ := hloads
      exact Routine.sizeOf_lt_of_getElem? hg
    exact disciplined_of_reached hconstants hbare (h.loaded hop hloads)
  refine .intro (fun g => hbare f r g h) (fun g => hloaded g _ (.inl rfl))
    (fun g => hloaded g _ (.inr rfl)) fun v hv hfunction => ?_
  rcases hconstants f r h v hv with hplain | ⟨g, rfl⟩
  · refine .plain ?_
    cases v <;> first | exact hplain | cases hplain
  · exact absurd rfl (hfunction g)
termination_by sizeOf f

end

/-! ## Straight code -/

/-- The heights of the stack along code that is run from front to back, from an offset on. -/
def lineHeights : Nat → Nat → List Instruction → Nat → Option Nat
  | _, _, [], _ => none
  | pos, height, ins :: row, q =>
    if q = pos then some height else lineHeights (pos + ins.size) (ins.heightAfter height) row q

/-- Every instruction of the row may stand where it does and leads to the next one; the last leads
nowhere. -/
def Straight (f : Routine Value) (range : CodeRange) : Nat → Nat → List Instruction → Prop
  | _, _, [] => True
  | pos, height, ins :: row =>
    inspect f range pos height = .ok ins ∧
      successors f.name range ins pos = .ok (if row = [] then [] else [pos + ins.size]) ∧
      Straight f range (pos + ins.size) (ins.heightAfter height) row

section

variable {f : Routine Value} {range : CodeRange} {pos height q found : Nat} {row : List Instruction}

theorem le_of_lineHeights (h : lineHeights pos height row q = some found) : pos ≤ q := by
  induction row generalizing pos height with
  | nil => cases h
  | cons ins row ih =>
    rw [lineHeights] at h
    split at h
    · rename_i hq
      exact Nat.le_of_eq hq.symm
    · exact Nat.le_trans (Nat.le_add_right _ _) (ih h)

namespace Straight

theorem visit (h : Straight f range pos height row)
    (hq : lineHeights pos height row q = some found) :
    ∃ ins next, ins ∈ row ∧ inspect f range q found = .ok ins ∧
      successors f.name range ins q = .ok next ∧
      ∀ q' ∈ next, lineHeights pos height row q' = some (ins.heightAfter found) := by
  induction row generalizing pos height with
  | nil => cases hq
  | cons ins row ih =>
    obtain ⟨hinspect, hnext, hrest⟩ := h
    have hpos := ins.size_pos
    rw [lineHeights] at hq
    split at hq
    · rename_i hq'
      subst hq'
      cases hq
      refine ⟨ins, _, List.mem_cons_self, hinspect, hnext, fun q' hq' => ?_⟩
      cases row with
      | nil => cases hq'
      | cons ins' row =>
        rw [List.mem_singleton.1 hq', lineHeights, if_neg (by omega), lineHeights, if_pos rfl]
    · obtain ⟨ins', next, hmem, hinspect', hnext', hall⟩ := ih hrest hq
      refine ⟨ins', next, List.mem_cons_of_mem _ hmem, hinspect', hnext', fun q' hq' => ?_⟩
      have hle := le_of_lineHeights (hall q' hq')
      rw [lineHeights, if_neg (by omega)]
      exact hall q' hq'

theorem agree {start : Nat} (h : Straight f ⟨start, start + rowSize row⟩ start 0 row)
    (hne : row ≠ []) : Agree f ⟨start, start + rowSize row⟩ (lineHeights start 0 row) := by
  constructor
  · cases row with
    | nil => exact absurd rfl hne
    | cons ins row => exact if_pos rfl
  · intro pos height hpos
    obtain ⟨ins, next, -, hinspect, hnext, hall⟩ := h.visit hpos
    exact ⟨ins, next, hinspect, hnext, hall⟩

theorem decodes (h : Straight f range pos height row) : Decodes f.code pos row := by
  induction row generalizing pos height with
  | nil => trivial
  | cons ins row ih => exact ⟨(inspect_eq_ok_iff.1 h.1).1, ih h.2.2⟩

/-- Heights stand only where instructions begin. -/
theorem inside {front back : List Instruction} {ins : Instruction} {k : Nat}
    (hrow : row = front ++ ins :: back) (hk : 0 < k) (hlt : k < ins.size) :
    lineHeights pos height row (pos + rowSize front + k) = none := by
  induction front generalizing pos height row with
  | nil =>
    subst hrow
    rw [List.nil_append]
    cases hq : lineHeights pos height (ins :: back) (pos + rowSize [] + k) with
    | none => rfl
    | some found =>
      rw [lineHeights, rowSize_nil, if_neg (by omega)] at hq
      have := le_of_lineHeights hq
      omega
  | cons ins' front ih =>
    subst hrow
    have hpos := ins'.size_pos
    rw [List.cons_append, lineHeights, rowSize_cons, if_neg (by omega), ← Nat.add_assoc]
    exact ih rfl

/-- Straight code is accepted if the functions that it can load are. -/
theorem verifyCode_eq_ok {start : Nat} (h : Straight f ⟨start, start + rowSize row⟩ start 0 row)
    (hne : row ≠ [])
    (hinner : ∀ g, Value.function g ∈ f.constants → verifyCode g g.range = .ok ()) :
    verifyCode f ⟨start, start + rowSize row⟩ = .ok () := by
  have hagree := h.agree hne
  obtain ⟨found, hfound, hheights⟩ := explore_complete hagree ∅ .empty [(start, 0)]
    (fun pos height hpos => by simp at hpos) (fun e he => by
      rw [List.mem_singleton.1 he]
      exact hagree.start)
  refine verifyCode_eq_ok_iff.2
    ⟨found, hfound, ?_, fun i _ g hg => hinner g (Array.mem_of_getElem? hg)⟩
  refine misaligned?_eq_none h.decodes fun front ins back hrow k hk hlt => ?_
  cases hcontains : found.heights.contains (start + rowSize front + k) with
  | false => rfl
  | true =>
    have hsome := hheights _ _ (Std.HashMap.getElem?_eq_some_getElem
      (Std.HashMap.contains_iff_mem.1 hcontains))
    rw [inside hrow hk hlt] at hsome
    cases hsome

/-- Straight code loads what one of its instructions does. -/
theorem loads {start : Nat} (h : Straight f ⟨start, start + rowSize row⟩ start 0 row)
    (hne : row ≠ []) {op : Opcode} {g : Routine Value}
    (hloads : Loads f ⟨start, start + rowSize row⟩ op g) :
    ∃ ins ∈ row, ins.op = op := by
  obtain ⟨pos, ins, hrecorded, hdecoded, hop, -⟩ := hloads
  obtain ⟨height, hheight⟩ := Option.isSome_iff_exists.1 hrecorded
  obtain ⟨ins', next, hmem, hinspect, -⟩ := h.visit (eq_of_recordedHeight (h.agree hne) hheight)
  have hdecoded' := (inspect_eq_ok_iff.1 hinspect).1
  rw [hdecoded] at hdecoded'
  cases hdecoded'
  exact ⟨ins, hmem, hop⟩

end Straight

end

/-! ## The same function, captured and bare -/

/-- A function whose code is the given row of instructions. -/
def rowRoutine (name : String) (kind : ScopeKind) (row : List Instruction)
    (constants : Array Value) (localCount : Nat) (freeVariables : Array FreeVariable) :
    Routine Value where
  id := 0
  name := name
  params := #[]
  code := (rowBytes row).toArray
  constants := constants
  names := #[]
  localCount := localCount
  freeVariables := freeVariables
  scope := ⟨kind, name, #[]⟩

def readerRow : List Instruction :=
  [⟨.loadFree, [0]⟩, ⟨.popTop, []⟩, ⟨.pushTrue, []⟩, ⟨.returnValue, [1]⟩]

/-- A function that reads its only free variable and returns true. -/
def reader : Routine Value := rowRoutine "f" .function readerRow #[] 0 #[⟨"x", .slot 0⟩]

theorem straight_reader : Straight reader ⟨0, 0 + rowSize readerRow⟩ 0 0 readerRow :=
  ⟨rfl, rfl, rfl, rfl, rfl, rfl, rfl, rfl, trivial⟩

theorem verifyCode_reader : verifyCode reader reader.range = .ok () :=
  straight_reader.verifyCode_eq_ok nofun nofun

def readerMakerRow : List Instruction :=
  [⟨.makeCell, [0, 0]⟩, ⟨.loadClosure, [0, 1]⟩, ⟨.returnValue, [1]⟩]

/-- A function that makes a closure of the other one, over its only slot. -/
def readerMaker : Routine Value := rowRoutine "g" .function readerMakerRow #[.function reader] 1 #[]

theorem straight_readerMaker :
    Straight readerMaker ⟨0, 0 + rowSize readerMakerRow⟩ 0 0 readerMakerRow :=
  ⟨rfl, rfl, rfl, rfl, rfl, rfl, trivial⟩

theorem verifyCode_readerMaker : verifyCode readerMaker readerMaker.range = .ok () := by
  refine straight_readerMaker.verifyCode_eq_ok nofun fun g hg => ?_
  cases Array.mem_singleton.1 hg
  exact verifyCode_reader

/-- Why a run fails; nothing if it does not. -/
def Outcome.failure? : Outcome → Option Failure
  | .failed failure _ => some failure
  | _ => none

/-- What is on top of the stack when a run halts. -/
def Outcome.top? : Outcome → Option Value
  | .halted m => m.top?
  | _ => none

/-! ## Cells that are there, and cells that are not -/

/-- No run of accepted code reads a cell that its frame lacks, if no code that it reaches loads a
function with free variables as it is. -/
theorem accepted_code_finds_its_cells (s : Surroundings) (main : Routine Value) (range : CodeRange)
    (globals : Globals) (heap : Heap) (world : World) (hmain : main.scope.kind = .topLevel)
    (haccepted : verifyChunk main range = .ok ())
    (hconstants : ∀ f r, Reached main range f r → ∀ v ∈ f.constants,
      v.isPlain = true ∨ ∃ g, v = .function g)
    (hbare : ∀ f r g, Reached main range f r → Loads f r .loadConst g → g.freeVariables.size = 0)
    (hglobals : globals.Obeys functionless) (hheap : heap.Obeys functionless)
    (hhost : SoundHost s.host) (fuel : Nat) :
    ¬∃ i name calls m, (Machine.start main range.start globals heap world).run s fuel =
      .failed ⟨.freeOutOfRange i name, calls⟩ m := by
  have hcode : verifyCode main range = .ok () := by
    unfold verifyChunk at haccepted
    split at haccepted
    · cases haccepted
    · split at haccepted
      · exact haccepted
      · cases haccepted
  have hdisciplined := disciplined_of_reached hconstants hbare .main
  have hrun := (foreseen_start world hmain hcode hdisciplined
    (hglobals.imp fun _ => soundValue_of_functionless)
    (hheap.imp fun _ => soundValue_of_functionless)).run hmain hhost fuel
  rintro ⟨i, name, calls, m, hfailed⟩
  rw [hfailed] at hrun
  cases hrun

def callMadeRow : List Instruction :=
  [⟨.loadConst, [0]⟩, ⟨.call, [0]⟩, ⟨.call, [0]⟩, ⟨.halt, []⟩]

def callMade : Routine Value :=
  rowRoutine "main" .topLevel callMadeRow #[.function readerMaker] 0 #[]

/-- A closure reads the cell that it was given. -/
theorem accepted_code_finds_its_cells_in_closure :
    verifyChunk callMade ⟨0, 8⟩ = .ok () ∧
      (((Machine.start callMade 0 .empty .empty (.start 0 0)).run ⟨.standard, #[]⟩ 12).top?).map
        Value.typeName = some "bool" ∧
      ¬∃ i name calls m, (Machine.start callMade 0 .empty .empty (.start 0 0)).run
        ⟨.standard, #[]⟩ 12 = .failed ⟨.freeOutOfRange i name, calls⟩ m := by
  have hstraight : Straight callMade ⟨0, 0 + rowSize callMadeRow⟩ 0 0 callMadeRow :=
    ⟨rfl, rfl, rfl, rfl, rfl, rfl, rfl, rfl, trivial⟩
  have haccepted : verifyCode callMade ⟨0, 8⟩ = .ok () := by
    refine hstraight.verifyCode_eq_ok nofun fun g hg => ?_
    cases Array.mem_singleton.1 hg
    exact verifyCode_readerMaker
  have hreached : ∀ f r, Reached callMade ⟨0, 8⟩ f r → f = callMade ∨
      f = readerMaker ∧ r = readerMaker.range ∨ f = reader := by
    intro f r h
    induction h with
    | main => exact .inl rfl
    | loaded _ _ hloads ih =>
      have hmem := hloads.mem
      rcases ih with rfl | ⟨rfl, -⟩ | rfl
      · cases Array.mem_singleton.1 hmem
        exact .inr (.inl ⟨rfl, rfl⟩)
      · cases Array.mem_singleton.1 hmem
        exact .inr (.inr rfl)
      · exact absurd hmem (Array.not_mem_empty _)
  refine ⟨haccepted, by decide +kernel, ?_⟩
  refine accepted_code_finds_its_cells ⟨.standard, #[]⟩ callMade ⟨0, 8⟩ .empty .empty (.start 0 0)
    rfl haccepted (fun f r hf v hv => ?_) (fun f r g hf hloads => ?_) (Globals.obeys_empty _)
    (Heap.obeys_empty _) (fun _ h => absurd h (Array.not_mem_empty _)) 12
  · rcases hreached f r hf with rfl | ⟨rfl, -⟩ | rfl
    · exact .inr ⟨readerMaker, Array.mem_singleton.1 hv⟩
    · exact .inr ⟨reader, Array.mem_singleton.1 hv⟩
    · exact absurd hv (Array.not_mem_empty _)
  · rcases hreached f r hf with rfl | ⟨rfl, rfl⟩ | rfl
    · cases Array.mem_singleton.1 hloads.mem
      rfl
    · obtain ⟨ins, hmem, hop⟩ := straight_readerMaker.loads nofun hloads
      exact absurd hop (by revert ins; decide)
    · exact absurd hloads.mem (Array.not_mem_empty _)

def callBareRow : List Instruction := [⟨.loadConst, [0]⟩, ⟨.call, [0]⟩, ⟨.halt, []⟩]

def callBare : Routine Value := rowRoutine "main" .topLevel callBareRow #[.function reader] 0 #[]

/-- The code is accepted and comes across no functions but its own, and yet its run fails at a cell
that is missing. -/
theorem bare_function_lacks_its_cell :
    callBare.scope.kind = .topLevel ∧ verifyChunk callBare ⟨0, 6⟩ = .ok () ∧
      (∀ f r, Reached callBare ⟨0, 6⟩ f r → ∀ v ∈ f.constants,
        v.isPlain = true ∨ ∃ g, v = .function g) ∧
      Globals.empty.Obeys functionless ∧ Heap.empty.Obeys functionless ∧
      ((Machine.start callBare 0 .empty .empty (.start 0 0)).run ⟨.standard, #[]⟩ 3).failure? =
        some ⟨.freeOutOfRange 0 "f", ["f", "main"]⟩ := by
  have hstraight : Straight callBare ⟨0, 0 + rowSize callBareRow⟩ 0 0 callBareRow :=
    ⟨rfl, rfl, rfl, rfl, rfl, rfl, trivial⟩
  have haccepted : verifyCode callBare ⟨0, 6⟩ = .ok () := by
    refine hstraight.verifyCode_eq_ok nofun fun g hg => ?_
    cases Array.mem_singleton.1 hg
    exact verifyCode_reader
  have hreached : ∀ f r, Reached callBare ⟨0, 6⟩ f r → f = callBare ∨ f = reader := by
    intro f r h
    induction h with
    | main => exact .inl rfl
    | loaded _ _ hloads ih =>
      have hmem := hloads.mem
      rcases ih with rfl | rfl
      · cases Array.mem_singleton.1 hmem
        exact .inr rfl
      · exact absurd hmem (Array.not_mem_empty _)
  refine ⟨rfl, haccepted, fun f r hf v hv => ?_, Globals.obeys_empty _, Heap.obeys_empty _,
    by decide +kernel⟩
  rcases hreached f r hf with rfl | rfl
  · exact .inr ⟨reader, Array.mem_singleton.1 hv⟩
  · exact absurd hv (Array.not_mem_empty _)

end Ember
