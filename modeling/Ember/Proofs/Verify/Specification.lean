import Ember.Proofs.Verify.Acceptance

/-! What the verifier decides, said without following paths. `Acceptable` asks for heights of the
stack at the offsets that can be reached and for nothing that depends on how they are found. The
verifier accepts just the code of which that holds (`verifyCodeBy_eq_ok_iff_acceptable`), in
whatever order it visits what waits: it finds the offsets that can be reached, and heights that fit
together are those it records. -/
namespace Ember
set_option autoImplicit false

/-! ## Paths and boundaries -/

/-- A run may go on from one offset to another: to the instruction that follows, or to the target of
a jump. -/
inductive Flows (code : Array UInt8) (pos : Nat) : Nat → Prop
  | falls {ins : Instruction} (hins : decode code pos = .ok ins)
      (hfalls : ins.fallsThrough = true) : Flows code pos (pos + ins.size)
  | jumps {ins : Instruction} {target : Nat} (hins : decode code pos = .ok ins)
      (htarget : ins.target? pos = some target) : Flows code pos target

/-- The offsets to which a run may come from the start. -/
inductive Reachable (code : Array UInt8) (start : Nat) : Nat → Prop
  | start : Reachable code start start
  | flows {pos next : Nat} (h : Reachable code start pos) (hflows : Flows code pos next) :
      Reachable code start next

/-- The offsets at which an instruction begins when the code is read from the start to the back. -/
inductive Boundary (code : Array UInt8) (start : Nat) : Nat → Prop
  | start : Boundary code start start
  | next {pos : Nat} {ins : Instruction} (h : Boundary code start pos)
      (hins : decode code pos = .ok ins) : Boundary code start (pos + ins.size)

/-! ## Acceptable code -/

/-- The operands of an instruction lie in the tables of the function. -/
def Instruction.Fits (ins : Instruction) (f : Routine Value) : Prop :=
  match ins.op with
  | .loadConst => ins.operand 0 < f.constants.size
  | .loadClosure => ∃ g, f.constants[ins.operand 0]? = some (.function g) ∧
      ins.operand 1 = g.freeVariables.size
  | .loadName | .storeName | .loadGlobal | .storeGlobal | .loadAttr | .storeAttr =>
    ins.operand 0 < f.names.size
  | .loadFast | .storeFast => ins.operand 0 < f.localCount
  | .loadFree | .storeFree => ins.operand 0 < f.freeVariables.size
  | .makeCell => (ins.operand 1 = 0 ∧ ins.operand 0 < f.localCount) ∨
      (ins.operand 1 = 1 ∧ ins.operand 0 < f.freeVariables.size)
  | .returnValue => ins.operand 0 ≤ 1
  | _ => True

/-- Where an instruction may stand: what concerns a call only in functions, the names of a session
and its end only at the top level. -/
def Opcode.Belongs : Opcode → ScopeKind → Prop
  | .loadFast, kind | .storeFast, kind | .loadFree, kind | .storeFree, kind | .loadGlobal, kind
  | .storeGlobal, kind | .makeCell, kind | .returnValue, kind => kind = .function
  | .loadName, kind | .storeName, kind | .halt, kind => kind = .topLevel
  | _, _ => True

/-- Heights of the stack at the offsets that can be reached, which fit together along all paths. -/
structure Assigns (f : Routine Value) (range : CodeRange) (heights : Nat → Option Nat) : Prop where
  reached : ∀ pos, (∃ height, heights pos = some height) ↔ Reachable f.code range.start pos
  start : heights range.start = some 0
  /-- All that flows into an offset brings the same height. -/
  flows : ∀ pos next ins height, heights pos = some height → decode f.code pos = .ok ins →
    Flows f.code pos next → heights next = some (ins.heightAfter height)
  pops : ∀ pos ins height, heights pos = some height → decode f.code pos = .ok ins →
    ins.pops ≤ height

/-- What can be reached lies in the stretch of code, at the beginnings of instructions that fit the
function, and no path leads out of it. -/
structure Confines (f : Routine Value) (range : CodeRange) : Prop where
  aligned : ∀ pos, Reachable f.code range.start pos → Boundary f.code range.start pos
  decoded : ∀ pos, Reachable f.code range.start pos →
    ∃ ins, decode f.code pos = .ok ins ∧ pos + ins.size ≤ range.stop
  fits : ∀ pos ins, Reachable f.code range.start pos → decode f.code pos = .ok ins → ins.Fits f
  belongs : ∀ pos ins, Reachable f.code range.start pos → decode f.code pos = .ok ins →
    ins.op.Belongs f.scope.kind
  falls : ∀ pos ins, Reachable f.code range.start pos → decode f.code pos = .ok ins →
    ins.fallsThrough = true → pos + ins.size < range.stop
  jumps : ∀ pos ins, Reachable f.code range.start pos → decode f.code pos = .ok ins →
    ins.op.isJump = true → ∃ target, ins.target? pos = some target ∧ range.start ≤ target ∧
      target < range.stop

/-- Code that is in order, as is all code of the functions that it may load. -/
inductive Acceptable : Routine Value → CodeRange → Prop
  | intro {f : Routine Value} {range : CodeRange} {heights : Nat → Option Nat}
      (assigns : Assigns f range heights) (confines : Confines f range)
      (loaded : ∀ pos ins g, Reachable f.code range.start pos → decode f.code pos = .ok ins →
        (ins.op = .loadConst ∨ ins.op = .loadClosure) →
        f.constants[ins.operand 0]? = some (.function g) → Acceptable g g.range) :
      Acceptable f range

theorem acceptable_iff {f : Routine Value} {range : CodeRange} : Acceptable f range ↔
    ∃ heights, Assigns f range heights ∧ Confines f range ∧
      ∀ pos ins g, Reachable f.code range.start pos → decode f.code pos = .ok ins →
        (ins.op = .loadConst ∨ ins.op = .loadClosure) →
        f.constants[ins.operand 0]? = some (.function g) → Acceptable g g.range :=
  ⟨fun ⟨hassigns, hconfines, hloaded⟩ => ⟨_, hassigns, hconfines, hloaded⟩,
    fun ⟨_, hassigns, hconfines, hloaded⟩ => ⟨hassigns, hconfines, hloaded⟩⟩

/-! ## One instruction -/

section
variable {f : Routine Value} {range : CodeRange} {ins : Instruction} {pos : Nat}

theorem checkOperands_eq_ok_iff : checkOperands f ins = .ok () ↔ ins.Fits f := by
  have hbelow : ∀ (i n : Nat) (fault : VerifyFault),
      (if i < n then .ok () else .error fault : Except VerifyFault Unit) = .ok () ↔ i < n := by
    intro i n fault
    split
    · rename_i h
      exact ⟨fun _ => h, fun _ => rfl⟩
    · rename_i h
      exact ⟨nofun, fun h' => absurd h' h⟩
  obtain ⟨op, operands⟩ := ins
  unfold checkOperands Instruction.Fits
  cases op with
  | loadConst | loadName | storeName | loadGlobal | storeGlobal | loadAttr | storeAttr | loadFast
  | storeFast | loadFree | storeFree => exact hbelow _ _ _
  | loadClosure =>
    dsimp only
    cases f.constants[Instruction.operand ⟨.loadClosure, operands⟩ 0]? with
    | none => exact ⟨nofun, fun ⟨g, hg, _⟩ => nomatch hg⟩
    | some v =>
      cases v with
      | function g =>
        dsimp only
        split
        · rename_i hcount
          exact ⟨fun _ => ⟨g, rfl, hcount⟩, fun _ => rfl⟩
        · rename_i hcount
          refine ⟨nofun, fun ⟨g', hg', hcount'⟩ => absurd hcount' ?_⟩
          cases hg'
          exact hcount
      | _ => exact ⟨nofun, fun ⟨g, hg, _⟩ => nomatch hg⟩
  | makeCell =>
    dsimp only
    split
    · rename_i hsource
      rw [hbelow, hsource]
      simp
    · rename_i hsource
      rw [hbelow, hsource]
      simp
    · rename_i hslot hfree
      refine ⟨nofun, fun h => ?_⟩
      rcases h with ⟨hsource, -⟩ | ⟨hsource, -⟩
      · exact absurd hsource hslot
      · exact absurd hsource hfree
  | returnValue =>
    dsimp only
    split
    · rename_i hflag
      exact ⟨fun _ => hflag, fun _ => rfl⟩
    · rename_i hflag
      exact ⟨nofun, fun h => absurd h hflag⟩
  | _ => exact ⟨fun _ => trivial, fun _ => rfl⟩

theorem checkPlace_eq_ok_iff {kind : ScopeKind} {op : Opcode} :
    checkPlace kind op = .ok () ↔ op.Belongs kind := by
  cases kind with
  | topLevel => cases op <;> simp [checkPlace, Opcode.Belongs]
  | function => cases op <;> simp [checkPlace, Opcode.Belongs]

theorem Routine.loaded?_of_loads {g : Routine Value}
    (hop : ins.op = .loadConst ∨ ins.op = .loadClosure)
    (hg : f.constants[ins.operand 0]? = some (.function g)) :
    f.loaded? ins = some (ins.operand 0) := by
  unfold loaded?
  rcases hop with hop | hop
  · rw [hop]
    dsimp only
    rw [hg]
  · rw [hop]
    dsimp only
    rw [hg]

theorem Routine.loaded?_eq_some_iff {i : Nat} : f.loaded? ins = some i ↔
    (ins.op = .loadConst ∨ ins.op = .loadClosure) ∧ i = ins.operand 0 ∧
      ∃ g, f.constants[i]? = some (.function g) := by
  constructor
  · intro h
    unfold loaded? at h
    split at h
    · rename_i hop
      split at h
      · rename_i g hg
        cases h
        exact ⟨.inl hop, rfl, g, hg⟩
      · cases h
    · rename_i hop
      split at h
      · rename_i g hg
        cases h
        exact ⟨.inr hop, rfl, g, hg⟩
      · cases h
    · cases h
  · rintro ⟨hop, rfl, g, hg⟩
    exact loaded?_of_loads hop hg

theorem isJump_of_target? {target : Nat} (h : ins.target? pos = some target) :
    ins.op.isJump = true := by
  unfold Instruction.target? at h
  split at h
  · assumption
  · cases h

theorem exists_target_contained {name : String} {next : List Nat}
    (h : successors name range ins pos = .ok next) (hjump : ins.op.isJump = true) :
    ∃ target, ins.target? pos = some target ∧ range.contains target = true := by
  obtain ⟨target, htarget⟩ := exists_target h hjump
  refine ⟨target, htarget, ?_⟩
  rw [successors, targets, if_pos hjump, htarget] at h
  dsimp only at h
  by_cases hcontains : range.contains target = true
  · exact hcontains
  · rw [if_neg hcontains] at h
    cases h

/-- A run goes on just where the verifier follows it. -/
theorem mem_successors_iff_flows {name : String} {next : List Nat} {q : Nat}
    (hins : decode f.code pos = .ok ins) (h : successors name range ins pos = .ok next) :
    q ∈ next ↔ Flows f.code pos q := by
  constructor
  · intro hq
    rcases mem_successors h hq with ⟨hfalls, rfl, -⟩ | ⟨-, htarget, -⟩
    · exact .falls hins hfalls
    · exact .jumps hins htarget
  · intro hq
    cases hq with
    | falls hins' hfalls =>
      cases hins.symm.trans hins'
      exact falls_mem_successors h hfalls
    | jumps hins' htarget =>
      cases hins.symm.trans hins'
      exact target_mem_successors h (isJump_of_target? htarget) htarget

end

/-! ## Alignment -/

section
variable {code : Array UInt8} {start pos : Nat} {ins : Instruction}

theorem Boundary.le (h : Boundary code start pos) : start ≤ pos := by
  induction h with
  | start => exact Nat.le_refl start
  | next _ _ ih => exact Nat.le_add_right_of_le ih

theorem Boundary.cons (hins : decode code start = .ok ins)
    (h : Boundary code (start + ins.size) pos) : Boundary code start pos := by
  induction h with
  | start => exact .next .start hins
  | next _ hnext ih => exact .next ih hnext

/-- A boundary behind the first is one of what follows the first instruction. -/
theorem Boundary.tail (h : Boundary code start pos) (hpos : pos ≠ start) :
    ∃ ins, decode code start = .ok ins ∧ Boundary code (start + ins.size) pos := by
  induction h with
  | start => exact absurd rfl hpos
  | @next pos ins h hins ih =>
    by_cases hstart : pos = start
    · subst hstart
      exact ⟨ins, hins, .start⟩
    · obtain ⟨first, hfirst, hrest⟩ := ih hstart
      exact ⟨first, hfirst, .next hrest hins⟩

/-- Reading the code from front to back finds whether all offsets that were reached are
boundaries. -/
theorem misaligned?_eq_none_iff {heights : Heights} {stop : Nat}
    (hstop : ∀ pos, heights.contains pos = true → pos < stop) (start : Nat) :
    misaligned? code heights stop start = none ↔
      ∀ pos, start ≤ pos → heights.contains pos = true → Boundary code start pos := by
  fun_induction misaligned? code heights stop start with
  | case1 start hlt ins hins inner hinner =>
    refine ⟨nofun, fun h => ?_⟩
    obtain ⟨k, hk, rfl⟩ := List.mem_range'.1 (List.mem_of_find?_eq_some hinner)
    obtain ⟨ins', hins', hrest⟩ := (h _ (by omega) (List.find?_some hinner)).tail (by omega)
    cases hins.symm.trans hins'
    have := hrest.le
    omega
  | case2 start hlt ins hins hinner ih =>
    have hsize := ins.size_pos
    rw [ih]
    constructor
    · intro h pos hpos hcontains
      by_cases hstart : pos = start
      · subst hstart
        exact .start
      · refine .cons hins (h pos ?_ hcontains)
        -- nothing that was reached lies inside the instruction
        refine Nat.le_of_not_lt fun hinside => ?_
        refine List.find?_eq_none.1 hinner pos (List.mem_range'.2 ⟨pos - (start + 1), ?_, ?_⟩)
          hcontains
        · omega
        · omega
    · intro h pos hpos hcontains
      obtain ⟨ins', hins', hrest⟩ := (h pos (by omega) hcontains).tail (by omega)
      cases hins.symm.trans hins'
      exact hrest
  | case3 start hlt e hins =>
    rw [List.find?_eq_none]
    constructor
    · intro h pos hpos hcontains
      by_cases hstart : pos = start
      · subst hstart
        exact .start
      · have hbelow := hstop pos hcontains
        refine absurd hcontains (h pos (List.mem_range'.2 ⟨pos - (start + 1), ?_, ?_⟩))
        · omega
        · omega
    · intro h pos hpos hcontains
      obtain ⟨k, hk, rfl⟩ := List.mem_range'.1 hpos
      obtain ⟨ins', hins', -⟩ := (h _ (by omega) hcontains).tail (by omega)
      cases hins.symm.trans hins'
  | case4 start hge =>
    refine ⟨fun _ pos hpos hcontains => ?_, fun _ => rfl⟩
    have := hstop pos hcontains
    omega

end

/-! ## What following all paths finds -/

theorem Heights.exists_of_contains {heights : Heights} {pos : Nat}
    (h : heights.contains pos = true) : ∃ height, heights[pos]? = some height :=
  Option.isSome_iff_exists.1 (Std.HashMap.isSome_getElem?_eq_contains.trans h)

section
variable {f : Routine Value} {range : CodeRange} {heights : Heights} {loaded : OrderedMap Nat Unit}
  {pending : List (Nat × Nat)}

/-- Only what can be reached is visited, and only functions that are loaded there are listed. -/
structure Traced (f : Routine Value) (range : CodeRange) (heights : Heights)
    (loaded : OrderedMap Nat Unit) (pending : List (Nat × Nat)) : Prop where
  visited : ∀ pos h : Nat, heights[pos]? = some h → Reachable f.code range.start pos
  waiting : ∀ e ∈ pending, Reachable f.code range.start e.1
  listed : ∀ i ∈ loaded.keys, ∃ pos ins, Reachable f.code range.start pos ∧
    decode f.code pos = .ok ins ∧ f.loaded? ins = some i

theorem Traced.start (f : Routine Value) (range : CodeRange) :
    Traced f range ∅ .empty [(range.start, 0)] := by
  refine ⟨by simp, fun e he => ?_, by simp⟩
  rw [List.mem_singleton.1 he]
  exact .start

theorem exploreBy_traced (order : VisitOrder) {found : Exploration}
    (h : Traced f range heights loaded pending)
    (hok : exploreBy order f range heights loaded pending = .ok found) :
    Traced f range found.heights found.loaded [] := by
  fun_induction exploreBy order f range heights loaded pending with
  | case1 heights loaded pending =>
    cases hok
    exact ⟨h.visited, List.forall_mem_nil _, h.listed⟩
  | case2 heights loaded pending pos rest seen hpos hwaits ih =>
    refine ih ⟨h.visited, fun e he => ?_, h.listed⟩ hok
    exact h.waiting e ((VisitOrder.mem_iff hwaits e).2 (.inr he))
  | case3 => cases hok
  | case4 => cases hok
  | case5 => cases hok
  | case6 heights loaded pending pos height rest hwaits hpos ins hins next hnext loaded' ih =>
    have hhere := h.waiting _ ((VisitOrder.mem_iff hwaits _).2 (.inl rfl))
    obtain ⟨hdecoded, -⟩ := inspect_eq_ok_iff.1 hins
    refine ih ⟨fun p height' hp => ?_, fun e he => ?_, fun i hi => ?_⟩ hok
    · rw [Std.HashMap.getElem?_insert] at hp
      split at hp
      · rename_i heq
        have hsame : pos = p := by simpa using heq
        exact hsame ▸ hhere
      · exact h.visited p height' hp
    · rcases List.mem_append.1 he with he | he
      · obtain ⟨q, hq, rfl⟩ := List.mem_map.1 he
        exact .flows hhere ((mem_successors_iff_flows hdecoded hnext).1 hq)
      · exact h.waiting e ((VisitOrder.mem_iff hwaits e).2 (.inr he))
    · simp only [loaded'] at hi
      split at hi
      · rename_i place hplace
        rcases OrderedMap.mem_keys_insert.1 hi with hi | rfl
        · exact h.listed i hi
        · exact ⟨pos, ins, hhere, hdecoded, hplace⟩
      · exact h.listed i hi

end

/-! ## What is accepted -/

section
variable {f : Routine Value} {range : CodeRange} {heights : Nat → Option Nat} {order : VisitOrder}

/-- Heights at what can be reached agree. -/
theorem Assigns.agree (h : Assigns f range heights) (hconfines : Confines f range) :
    Agree f range heights := by
  refine ⟨h.start, fun pos height hpos => ?_⟩
  have hreached := (h.reached pos).1 ⟨height, hpos⟩
  obtain ⟨ins, hins, hfit⟩ := hconfines.decoded pos hreached
  obtain ⟨next, hnext⟩ := successors_eq_ok f.name (hconfines.falls pos ins hreached hins)
    fun hjump => by
      obtain ⟨target, htarget, hstart, hstop⟩ := hconfines.jumps pos ins hreached hins hjump
      exact ⟨target, htarget, by simp [CodeRange.contains, hstart, hstop]⟩
  refine ⟨ins, next,
    inspect_eq_ok_iff.2 ⟨hins, hfit, ?_, ?_, h.pops pos ins height hpos hins⟩, hnext,
    fun q hq => h.flows pos q ins height hpos hins ((mem_successors_iff_flows hins hnext).1 hq)⟩
  · exact checkOperands_eq_ok_iff.2 (hconfines.fits pos ins hreached hins)
  · exact checkPlace_eq_ok_iff.2 (hconfines.belongs pos ins hreached hins)

/-- What the exploration records assigns heights to what can be reached. -/
theorem assigns_of_exploreBy {found : Exploration}
    (hfound : exploreBy order f range ∅ .empty [(range.start, 0)] = .ok found) :
    Assigns f range fun pos => found.heights[pos]? := by
  obtain ⟨hexplored, -, hstart⟩ := exploreBy_sound order (Explored.start f range _) hfound
  have htraced := exploreBy_traced order (Traced.start f range) hfound
  have hflows : ∀ (pos next : Nat) ins height, found.heights[pos]? = some height →
      decode f.code pos = .ok ins → Flows f.code pos next →
      found.heights[next]? = some (ins.heightAfter height) := by
    intro pos next ins height hpos hins hnext
    obtain ⟨ins', nexts, hinspect, hnexts, hall⟩ := hexplored.visit pos height hpos
    cases hins.symm.trans (inspect_eq_ok_iff.1 hinspect).1
    exact (hall next ((mem_successors_iff_flows hins hnexts).2 hnext)).resolve_right nofun
  refine ⟨fun pos => ⟨fun ⟨height, hpos⟩ => htraced.visited pos height hpos, fun h => ?_⟩,
    hstart _ List.mem_cons_self, hflows, fun pos ins height hpos hins => ?_⟩
  · induction h with
    | start => exact ⟨0, hstart _ List.mem_cons_self⟩
    | flows _ hnext ih =>
      obtain ⟨height, hpos⟩ := ih
      obtain ⟨ins, _, hinspect, -⟩ := hexplored.visit _ height hpos
      exact ⟨_, hflows _ _ ins height hpos (inspect_eq_ok_iff.1 hinspect).1 hnext⟩
  · obtain ⟨ins', _, hinspect, -⟩ := hexplored.visit pos height hpos
    obtain ⟨hins', -, -, -, hpops⟩ := inspect_eq_ok_iff.1 hinspect
    cases hins.symm.trans hins'
    exact hpops

/-- What has been visited is confined, unless an offset lies inside an instruction. -/
theorem confines_of_exploreBy {found : Exploration}
    (hfound : exploreBy order f range ∅ .empty [(range.start, 0)] = .ok found)
    (haligned : misaligned? f.code found.heights range.stop range.start = none) :
    Confines f range := by
  obtain ⟨hexplored, -, -⟩ := exploreBy_sound order (Explored.start f range _) hfound
  have hvisit : ∀ pos, Reachable f.code range.start pos → ∃ (height : Nat) (ins : Instruction)
      (next : List Nat), found.heights[pos]? = some height ∧
        inspect f range pos height = .ok ins ∧ successors f.name range ins pos = .ok next := by
    intro pos h
    obtain ⟨height, hpos⟩ := ((assigns_of_exploreBy hfound).reached pos).2 h
    obtain ⟨ins, next, hins, hnext, -⟩ := hexplored.visit pos height hpos
    exact ⟨height, ins, next, hpos, hins, hnext⟩
  have hinspect : ∀ pos ins, Reachable f.code range.start pos → decode f.code pos = .ok ins →
      checkOperands f ins = .ok () ∧ checkPlace f.scope.kind ins.op = .ok () ∧
        ∃ next, successors f.name range ins pos = .ok next := by
    intro pos ins h hins
    obtain ⟨height, ins', next, -, hpasses, hnext⟩ := hvisit pos h
    obtain ⟨hins', -, hoperands, hplace, -⟩ := inspect_eq_ok_iff.1 hpasses
    cases hins.symm.trans hins'
    exact ⟨hoperands, hplace, next, hnext⟩
  have hfalls : ∀ pos ins, Reachable f.code range.start pos → decode f.code pos = .ok ins →
      ins.fallsThrough = true → pos + ins.size < range.stop := by
    intro pos ins h hins hfalls
    obtain ⟨-, -, next, hnext⟩ := hinspect pos ins h hins
    obtain ⟨height, ins', nexts, -, hpasses, -⟩ :=
      hvisit _ (.flows h (.falls hins hfalls))
    have hfits := inspect_fits hpasses
    have := ins'.size_pos
    omega
  have hjumps : ∀ pos ins, Reachable f.code range.start pos → decode f.code pos = .ok ins →
      ins.op.isJump = true → ∃ target, ins.target? pos = some target ∧ range.start ≤ target ∧
        target < range.stop := by
    intro pos ins h hins hjump
    obtain ⟨-, -, next, hnext⟩ := hinspect pos ins h hins
    obtain ⟨target, htarget, hcontains⟩ := exists_target_contained hnext hjump
    simp only [CodeRange.contains, Bool.and_eq_true, decide_eq_true_eq] at hcontains
    exact ⟨target, htarget, hcontains⟩
  have hstart : ∀ pos, Reachable f.code range.start pos → range.start ≤ pos := by
    intro pos h
    induction h with
    | start => exact Nat.le_refl _
    | flows h hflows ih =>
      cases hflows with
      | falls => exact Nat.le_add_right_of_le ih
      | jumps hins htarget =>
        obtain ⟨target, htarget', hbelow, -⟩ := hjumps _ _ h hins (isJump_of_target? htarget)
        cases htarget.symm.trans htarget'
        exact hbelow
  refine ⟨fun pos h => ?_, fun pos h => ?_, fun pos ins h hins => ?_, fun pos ins h hins => ?_,
    hfalls, hjumps⟩
  · have hbelow : ∀ pos, found.heights.contains pos = true → pos < range.stop := by
      intro pos hpos
      obtain ⟨height, hheight⟩ := Heights.exists_of_contains hpos
      obtain ⟨ins, _, hins, -⟩ := hexplored.visit pos height hheight
      have hfits := inspect_fits hins
      have := ins.size_pos
      omega
    obtain ⟨height, -, -, hheight, -, -⟩ := hvisit pos h
    refine (misaligned?_eq_none_iff hbelow range.start).1 haligned pos (hstart pos h) ?_
    rw [← Std.HashMap.isSome_getElem?_eq_contains, hheight]
    rfl
  · obtain ⟨height, ins, next, -, hins, -⟩ := hvisit pos h
    exact ⟨ins, (inspect_eq_ok_iff.1 hins).1, inspect_fits hins⟩
  · exact checkOperands_eq_ok_iff.1 (hinspect pos ins h hins).1
  · exact checkPlace_eq_ok_iff.1 (hinspect pos ins h hins).2.1

/-- The verifier accepts just the acceptable code, in whatever order it visits what waits. -/
theorem verifyCodeBy_eq_ok_iff_acceptable (order : VisitOrder) (f : Routine Value)
    (range : CodeRange) : verifyCodeBy order f range = .ok () ↔ Acceptable f range := by
  rw [verifyCodeBy_eq_ok_iff, acceptable_iff]
  constructor
  · rintro ⟨found, hfound, haligned, hloaded⟩
    obtain ⟨hexplored, -, -⟩ := exploreBy_sound order (Explored.start f range _) hfound
    have hassigns := assigns_of_exploreBy hfound
    refine ⟨_, hassigns, confines_of_exploreBy hfound haligned,
      fun pos ins g hpos hins hop hg => ?_⟩
    obtain ⟨height, hheight⟩ := (hassigns.reached pos).2 hpos
    obtain ⟨ins', _, hpasses, -⟩ := hexplored.visit pos height hheight
    cases hins.symm.trans (inspect_eq_ok_iff.1 hpasses).1
    have hlisted := hexplored.listed pos height ins _ hheight hpasses
      (Routine.loaded?_eq_some_iff.2 ⟨hop, rfl, g, hg⟩)
    exact (verifyCodeBy_eq_ok_iff_acceptable order g g.range).1 (hloaded _ hlisted g hg)
  · rintro ⟨heights, hassigns, hconfines, hloaded⟩
    obtain ⟨found, hfound, hwithin⟩ := exploreBy_complete order (hassigns.agree hconfines) ∅ .empty
      [(range.start, 0)] (by simp) fun e he => by
        rw [List.mem_singleton.1 he]
        exact hassigns.start
    have htraced := exploreBy_traced order (Traced.start f range) hfound
    refine ⟨found, hfound, ?_, fun i hi g hg => ?_⟩
    · have hreached : ∀ pos, found.heights.contains pos = true →
          Reachable f.code range.start pos := by
        intro pos hpos
        obtain ⟨height, hheight⟩ := Heights.exists_of_contains hpos
        exact htraced.visited pos height hheight
      refine (misaligned?_eq_none_iff (fun pos hpos => ?_) _).2 fun pos _ hpos =>
        hconfines.aligned pos (hreached pos hpos)
      obtain ⟨ins, -, hfit⟩ := hconfines.decoded pos (hreached pos hpos)
      have := ins.size_pos
      omega
    · obtain ⟨pos, ins, hpos, hins, hplace⟩ := htraced.listed i hi
      obtain ⟨hop, rfl, -⟩ := Routine.loaded?_eq_some_iff.1 hplace
      exact (verifyCodeBy_eq_ok_iff_acceptable order g g.range).2
        (hloaded pos ins g hpos hins hop hg)
termination_by sizeOf f
decreasing_by all_goals exact Routine.sizeOf_lt_of_getElem? hg

/-- The verifier decides whether code is acceptable. Visits come to an end in every order, and in
every order they come to the same verdict. -/
theorem verifier_decides_acceptable (main : Routine Value) (range : CodeRange)
    (hrange : range.start < range.stop) (hcode : range.stop ≤ main.code.size)
    (hhalt : main.code[range.stop - 1]? = some (Opcode.byte .halt)) :
    (∀ f r, WellFounded fun next stage => Visits f r stage next) ∧
      (verifyChunk main range = .ok () ↔ Acceptable main range) ∧
      ∀ order, verifyCodeBy order main range = .ok () ↔ Acceptable main range := by
  refine ⟨wellFounded_visits, ?_, fun order => verifyCodeBy_eq_ok_iff_acceptable order main range⟩
  have hinside : (main.code.size < range.stop || range.stop ≤ range.start) = false := by
    rw [Bool.or_eq_false_iff]
    exact ⟨decide_eq_false (by omega), decide_eq_false (by omega)⟩
  rw [verifyChunk, hinside, if_neg Bool.false_ne_true, if_pos hhalt, ← verifyCodeBy_waiting]
  exact verifyCodeBy_eq_ok_iff_acceptable .waiting main range

end

/-- A chunk that consists of these instructions. -/
def chunkOf (row : List Instruction) : Routine Value where
  id := 0
  name := "main"
  params := #[]
  code := (row.flatMap Instruction.encode).toArray
  constants := #[]
  names := #[]
  localCount := 0
  freeVariables := #[]
  scope := ⟨.topLevel, "main", #[]⟩

/-- Code that jumps back to where it began. -/
def roundAndRound : Routine Value := chunkOf [⟨.jumpBackward, [3]⟩, ⟨.halt, []⟩]

/-- Code whose paths meet with different heights. -/
def unevenBranches : Routine Value :=
  chunkOf [⟨.pushTrue, []⟩, ⟨.popJumpForwardIfTrue, [1]⟩, ⟨.pushNil, []⟩, ⟨.halt, []⟩]

theorem acceptable_roundAndRound : Acceptable roundAndRound ⟨0, 4⟩ := by
  have hdecode : decode roundAndRound.code 0 = .ok ⟨.jumpBackward, [3]⟩ := rfl
  -- the only way leads back
  have hback : ∀ pos, Flows roundAndRound.code 0 pos → pos = 0 := by
    intro pos h
    cases h with
    | falls hins hfalls =>
      cases hdecode.symm.trans hins
      cases hfalls
    | jumps hins htarget =>
      cases hdecode.symm.trans hins
      cases htarget
      rfl
  have honly : ∀ pos, Reachable roundAndRound.code 0 pos → pos = 0 := by
    intro pos h
    induction h with
    | start => rfl
    | flows _ hflows ih =>
      subst ih
      exact hback _ hflows
  have hins : ∀ pos ins, Reachable roundAndRound.code 0 pos →
      decode roundAndRound.code pos = .ok ins → pos = 0 ∧ ins = ⟨.jumpBackward, [3]⟩ := by
    intro pos ins h hins
    obtain rfl := honly pos h
    cases hdecode.symm.trans hins
    exact ⟨rfl, rfl⟩
  have hzero : ∀ {pos height : Nat}, (if pos = 0 then some 0 else none) = some height →
      pos = 0 ∧ height = 0 := by
    intro pos height h
    split at h
    · cases h
      exact ⟨by assumption, rfl⟩
    · cases h
  refine @Acceptable.intro _ _ (fun pos => if pos = 0 then some 0 else none) ?_ ?_ ?_
  · refine ⟨fun pos => ⟨fun ⟨height, hpos⟩ => ?_, fun h => ⟨0, if_pos (honly pos h)⟩⟩, rfl,
      fun pos next ins height hpos hdecoded hflows => ?_, fun pos ins height hpos hdecoded => ?_⟩
    · obtain ⟨rfl, -⟩ := hzero hpos
      exact .start
    · obtain ⟨rfl, rfl⟩ := hzero hpos
      cases hdecode.symm.trans hdecoded
      obtain rfl := hback next hflows
      rfl
    · obtain ⟨rfl, -⟩ := hzero hpos
      cases hdecode.symm.trans hdecoded
      exact Nat.zero_le height
  · refine ⟨fun pos h => ?_, fun pos h => ?_, fun pos ins h hdecoded => ?_,
      fun pos ins h hdecoded => ?_, fun pos ins h hdecoded hfalls => ?_,
      fun pos ins h hdecoded _ => ?_⟩
    · obtain rfl := honly pos h
      exact .start
    · obtain rfl := honly pos h
      exact ⟨_, hdecode, by decide⟩
    · obtain ⟨-, rfl⟩ := hins pos ins h hdecoded
      trivial
    · obtain ⟨-, rfl⟩ := hins pos ins h hdecoded
      trivial
    · obtain ⟨-, rfl⟩ := hins pos ins h hdecoded
      cases hfalls
    · obtain ⟨rfl, rfl⟩ := hins pos ins h hdecoded
      exact ⟨0, rfl, Nat.le_refl 0, by decide⟩
  · intro pos ins g h hdecoded hop
    obtain ⟨-, rfl⟩ := hins pos ins h hdecoded
    rcases hop with hop | hop <;> cases hop

theorem not_acceptable_unevenBranches : ¬Acceptable unevenBranches ⟨0, 6⟩ := by
  intro h
  obtain ⟨heights, hassigns, -, -⟩ := acceptable_iff.1 h
  have hfalls : ∀ {pos next : Nat} {ins : Instruction},
      decode unevenBranches.code pos = .ok ins → ins.fallsThrough = true → pos + ins.size = next →
      Flows unevenBranches.code pos next :=
    fun hins hfalls hnext => hnext ▸ .falls hins hfalls
  have hpushed : heights 1 = some 1 :=
    hassigns.flows 0 1 ⟨.pushTrue, []⟩ 0 hassigns.start rfl (hfalls rfl rfl rfl)
  have hjumped : heights 5 = some 0 :=
    hassigns.flows 1 5 ⟨.popJumpForwardIfTrue, [1]⟩ 1 hpushed rfl (.jumps rfl rfl)
  have hpopped : heights 4 = some 0 :=
    hassigns.flows 1 4 ⟨.popJumpForwardIfTrue, [1]⟩ 1 hpushed rfl (hfalls rfl rfl rfl)
  have hfallen : heights 5 = some 1 :=
    hassigns.flows 4 5 ⟨.pushNil, []⟩ 0 hpopped rfl (hfalls rfl rfl rfl)
  cases hjumped.symm.trans hfallen

/-- A loop is accepted in whatever order it is visited, and branches of different heights are
not. -/
theorem verifier_decides_acceptable_loop_and_branches :
    (verifyChunk roundAndRound ⟨0, 4⟩ = .ok () ∧
      ∀ order, verifyCodeBy order roundAndRound ⟨0, 4⟩ = .ok ()) ∧
    verifyChunk unevenBranches ⟨0, 6⟩ ≠ .ok () ∧
      ∀ order, verifyCodeBy order unevenBranches ⟨0, 6⟩ ≠ .ok () := by
  have hround := verifier_decides_acceptable roundAndRound ⟨0, 4⟩ (by decide) (by decide) rfl
  have huneven := verifier_decides_acceptable unevenBranches ⟨0, 6⟩ (by decide) (by decide) rfl
  exact ⟨⟨hround.2.1.2 acceptable_roundAndRound, fun order =>
      (hround.2.2 order).2 acceptable_roundAndRound⟩,
    fun h => not_acceptable_unevenBranches (huneven.2.1.1 h),
    fun order h => not_acceptable_unevenBranches ((huneven.2.2 order).1 h)⟩

end Ember
