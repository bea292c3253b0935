import Ember.Proofs.Compile.Programs

/-! Compiled code passes the verifier. The shapes of a plan give heights that agree along every
path, so the verifier accepts a planned stretch of code, and with it the functions that it loads; a
chunk ends in `HALT`. -/
namespace Ember
set_option autoImplicit false

open CompileM

/-! ## Planned code -/

/-- The shape at an offset of code in which the plan stands at `start`. -/
def Plan.shapeFrom (p : Plan) (start pos : Nat) : Option Shape :=
  if pos < start then none else p.shapeAt none (pos - start)

theorem Plan.shapeFrom_add (p : Plan) (start o : Nat) :
    p.shapeFrom start (start + o) = p.shapeAt none o := by
  rw [shapeFrom, if_neg (by omega), Nat.add_sub_cancel_left]

theorem Plan.size_eq_rowSize {p : Plan} {row : List Instruction} (h : p.items = row.map Item.op) :
    p.size = rowSize row := by
  rw [← Plan.itemsSize_items, h, itemsSize, rowSize, List.map_map]
  rfl

theorem Plan.FlowsAt.wellFormed {f : Routine Value} {shapes : Nat → Option Shape} {pos : Nat}
    {p : Plan} (h : p.FlowsAt f shapes pos) {ins : Instruction} (hins : .op ins ∈ p.items) :
    ins.WellFormed := by
  induction p generalizing pos with
  | nil => cases hins
  | cons e p ih =>
    obtain ⟨item, s⟩ := e
    rcases List.mem_cons.1 hins with hhere | hrest
    · have hitem := h.1
      dsimp only at hhere
      subst hhere
      exact hitem.1
    · exact ih h.2 hrest

namespace Planned

variable {f : Routine Value} {start : Nat} {row : List Instruction} {p : Plan}

theorem decodes (h : Planned f start row p) : Decodes f.code start row := by
  refine decodes_of_hasBytes h.bytes fun ins hins => ?_
  apply h.flows.wellFormed
  rw [h.items]
  exact List.mem_map_of_mem hins

theorem entry_shape (h : Planned f start row p) : p.shapeFrom start start = some (.values 0) := by
  have := Plan.shapeFrom_add p start 0
  rw [Nat.add_zero] at this
  rw [this, h.entry]

/-- Where the plan gives a shape, an instruction of the row begins that fits it, and that leads only
to places of the shape that it leaves. -/
theorem item (h : Planned f start row p) {pos : Nat} {s : Shape}
    (hs : p.shapeFrom start pos = some s) :
    ∃ front ins back s', row = front ++ ins :: back ∧ pos = start + rowSize front ∧
      Admits f ins s s' ∧
      (ins.fallsThrough = true → p.shapeAt none (rowSize front + ins.size) = some s') ∧
      (ins.op.isJump = true → ∃ t, ins.target? (rowSize front) = some t ∧
        p.shapeAt none t = some s') := by
  unfold Plan.shapeFrom at hs
  split at hs
  · cases hs
  · rename_i hle
    obtain ⟨pf, item, pb, hp, hfront⟩ := Plan.split_of_shapeAt hs
    have hitems := h.items
    rw [hp, Plan.items, List.map_append, List.map_cons] at hitems
    obtain ⟨front, rest, hrow, hpf, hrest⟩ := List.map_eq_append_iff.1 hitems.symm
    obtain ⟨ins, back, rfl, hitem, -⟩ := List.map_eq_cons_iff.1 hrest
    have hsize : pf.size = rowSize front := Plan.size_eq_rowSize hpf.symm
    dsimp only at hitem
    subst hitem
    have hflows := h.flows
    rw [Plan.Flows, hp] at hflows
    have hhere := hflows.item
    rw [← hp, Nat.zero_add, hsize] at hhere
    obtain ⟨-, s', hadm, hfalls, hjump⟩ := hhere
    exact ⟨front, ins, back, s', hrow, by omega, hadm, hfalls, hjump⟩

/-- The instruction at a place with a shape, and where it leads in the code. -/
theorem visit (h : Planned f start row p) {pos : Nat} {s : Shape}
    (hs : p.shapeFrom start pos = some s) :
    ∃ ins s', decode f.code pos = .ok ins ∧ pos + ins.size ≤ start + rowSize row ∧
      start ≤ pos ∧ Admits f ins s s' ∧
      (ins.fallsThrough = true → p.shapeFrom start (pos + ins.size) = some s') ∧
      (ins.op.isJump = true → ∃ t, ins.target? pos = some t ∧ p.shapeFrom start t = some s') := by
  obtain ⟨front, ins, back, s', hrow, hpos, hadm, hfalls, hjump⟩ := h.item hs
  refine ⟨ins, s', ?_, ?_, by omega, hadm, fun hf => ?_, fun hj => ?_⟩
  · have hdecodes := h.decodes
    rw [hrow] at hdecodes
    rw [hpos]
    exact hdecodes.decode_eq
  · rw [hrow, hpos, rowSize_append, rowSize_cons]
    omega
  · rw [hpos, Nat.add_assoc, Plan.shapeFrom_add]
    exact hfalls hf
  · obtain ⟨t, ht, hshape⟩ := hjump hj
    refine ⟨start + t, ?_, ?_⟩
    · rw [hpos]
      exact Instruction.target?_add ht start
    · rw [Plan.shapeFrom_add]
      exact hshape

/-- Inside an instruction the plan gives no shape. -/
theorem shapeFrom_inside (h : Planned f start row p) {front back : List Instruction}
    {ins : Instruction} (hrow : row = front ++ ins :: back) {k : Nat} (hk : 0 < k)
    (hlt : k < ins.size) : p.shapeFrom start (start + rowSize front + k) = none := by
  have hitems := h.items
  rw [hrow, List.map_append, List.map_cons, Plan.items] at hitems
  obtain ⟨p₁, p₂, rfl, hp₁, hp₂⟩ := List.map_eq_append_iff.1 hitems
  obtain ⟨⟨item, s⟩, p₃, rfl, hitem, -⟩ := List.map_eq_cons_iff.1 hp₂
  dsimp only at hitem
  subst hitem
  have hsize : rowSize front = Plan.size p₁ := (Plan.size_eq_rowSize hp₁).symm
  rw [Nat.add_assoc, Plan.shapeFrom_add, hsize, Plan.shapeAt_append_add, Plan.shapeAt,
    if_neg (by omega)]
  exact if_pos hlt

/-- The heights of the shapes agree along every path. -/
theorem agree (h : Planned f start row p) :
    Agree f ⟨start, start + rowSize row⟩ fun pos => (p.shapeFrom start pos).map Shape.height := by
  have hin : ∀ t s, p.shapeFrom start t = some s → start ≤ t ∧ t < start + rowSize row := by
    intro t s ht
    obtain ⟨ins, -, -, hle, hge, -⟩ := h.visit ht
    have := ins.size_pos
    exact ⟨hge, by omega⟩
  constructor
  · rw [h.entry_shape]
    rfl
  · intro pos height hpos
    obtain ⟨s, hs, rfl⟩ := Option.map_eq_some_iff.1 hpos
    obtain ⟨ins, s', hdec, hle, -, hadm, hfalls, hjump⟩ := h.visit hs
    obtain ⟨hpops, hheight⟩ := hadm.height
    have hinspect : inspect f ⟨start, start + rowSize row⟩ pos s.height = .ok ins :=
      inspect_eq_ok_iff.2 ⟨hdec, hle, hadm.operands, hadm.place, hpops⟩
    obtain ⟨next, hnext⟩ : ∃ next,
        successors f.name ⟨start, start + rowSize row⟩ ins pos = .ok next := by
      refine successors_eq_ok f.name (fun hf => (hin _ _ (hfalls hf)).2) fun hj => ?_
      obtain ⟨t, ht, hshape⟩ := hjump hj
      obtain ⟨hge, hlt⟩ := hin t s' hshape
      refine ⟨t, ht, ?_⟩
      simp only [CodeRange.contains, decide_eq_true hge, decide_eq_true hlt, Bool.and_self]
    refine ⟨ins, next, hinspect, hnext, fun q hq => ?_⟩
    rw [← hheight]
    rcases mem_successors hnext hq with ⟨hf, rfl, -⟩ | ⟨hj, ht, -⟩
    · rw [hfalls hf]
      rfl
    · obtain ⟨t, ht', hshape⟩ := hjump hj
      rw [ht] at ht'
      cases ht'
      rw [hshape]
      rfl

/-- A planned stretch of code is accepted if the functions that it can load are. -/
theorem verifyCode_eq_ok (h : Planned f start row p)
    (hinner : ∀ g, Value.function g ∈ f.constants → verifyCode g g.range = .ok ()) :
    verifyCode f ⟨start, start + rowSize row⟩ = .ok () := by
  obtain ⟨found, hfound, hheights⟩ := explore_complete h.agree ∅ .empty [(start, 0)]
    (fun pos height hpos => by simp at hpos) (fun e he => by
      rw [List.mem_singleton.1 he]
      exact h.agree.start)
  refine verifyCode_eq_ok_iff.2 ⟨found, hfound, ?_,
    fun i _ g hg => hinner g (Array.mem_of_getElem? hg)⟩
  refine misaligned?_eq_none h.decodes fun front ins back hrow k hk hlt => ?_
  -- a height inside an instruction would be that of a shape, and there is none
  by_contra hcontains
  rw [Bool.not_eq_false, Std.HashMap.contains_iff_mem] at hcontains
  have hsome := Std.HashMap.getElem?_eq_some_getElem hcontains
  have := hheights _ _ hsome
  rw [h.shapeFrom_inside hrow hk hlt] at this
  cases this

end Planned

/-- Every compiled function is accepted. -/
theorem Compiled.verifyCode_eq_ok {g : Routine Value} (h : Compiled g) :
    verifyCode g g.range = .ok () := by
  induction h with
  | @intro g row p _ _ _ hplan hsize _ _ _ ih =>
    have := hplan.verifyCode_eq_ok ih
    rwa [Nat.zero_add, ← hsize] at this

end Ember
