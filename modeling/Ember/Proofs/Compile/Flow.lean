import Ember.Compile.Fragment
import Ember.Proofs.Compile.Shapes

/-! The flow of control through pieces of code. A plan gives each item of a piece the shape of the
stack before it; the plan flows if every item leads only to places of the shape that it leaves.
Plans are put together as pieces of code are. -/
namespace Ember
set_option autoImplicit false

open Routine (Extends)

/-! ## Plans -/

/-- The items of a piece of code, each with the shape of the stack before it. -/
abbrev Plan : Type := List (Item × Shape)

namespace Plan

def items (p : Plan) : List Item := p.map Prod.fst

/-- The number of bytes of the piece of code. -/
def size (p : Plan) : Nat := (p.map fun e => e.1.size).sum

/-- The shape at an offset from the start, at the end that of what follows; none inside an item. -/
def shapeAt : Plan → Option Shape → Nat → Option Shape
  | [], exit, pos => if pos = 0 then exit else none
  | (item, s) :: rest, exit, pos =>
    if pos = 0 then some s
    else if pos < item.size then none else shapeAt rest exit (pos - item.size)

@[simp] theorem size_nil : size [] = 0 := rfl

@[simp] theorem size_cons (e : Item × Shape) (p : Plan) : size (e :: p) = e.1.size + size p := rfl

@[simp] theorem items_append (p q : Plan) : items (p ++ q) = items p ++ items q := by
  simp [items]

theorem shapeAt_nil_zero (exit : Option Shape) : shapeAt [] exit 0 = exit := rfl

end Plan

theorem Item.size_pos (item : Item) : 0 < item.size := by
  cases item with
  | op ins => exact ins.size_pos
  | hole exit => exact Opcode.size_pos _

namespace Plan

theorem shapeAt_cons_add (e : Item × Shape) (p : Plan) (exit : Option Shape) (pos : Nat) :
    shapeAt (e :: p) exit (e.1.size + pos) = shapeAt p exit pos := by
  have := e.1.size_pos
  rw [shapeAt, if_neg (by omega), if_neg (by omega), Nat.add_sub_cancel_left]

/-- Offsets beyond the first part are offsets of the second. -/
theorem shapeAt_append_add (p q : Plan) (exit : Option Shape) (pos : Nat) :
    shapeAt (p ++ q) exit (p.size + pos) = shapeAt q exit pos := by
  induction p with
  | nil => rw [List.nil_append, size_nil, Nat.zero_add]
  | cons e p ih => rw [List.cons_append, size_cons, Nat.add_assoc, shapeAt_cons_add, ih]

/-- The first part keeps its shapes if the second begins where it ends. -/
theorem shapeAt_append_of_eq {p q : Plan} {mid : Option Shape} {exit : Option Shape} {pos : Nat}
    {s : Shape} (h : shapeAt p mid pos = some s) (hmid : ∀ m, mid = some m →
      shapeAt q exit 0 = some m) : shapeAt (p ++ q) exit pos = some s := by
  induction p generalizing pos with
  | nil =>
    rw [shapeAt] at h
    split at h
    · rename_i hpos
      rw [List.nil_append, hpos]
      exact hmid s h
    · cases h
  | cons e p ih =>
    rw [List.cons_append]
    rw [shapeAt] at h ⊢
    split at h
    · rename_i hpos
      rw [if_pos hpos, h]
    · rename_i hpos
      rw [if_neg hpos]
      split at h
      · cases h
      · rename_i hlt
        rw [if_neg hlt]
        exact ih h

theorem shapeAt_size (p : Plan) (exit : Option Shape) : shapeAt p exit p.size = exit := by
  have := shapeAt_append_add p [] exit 0
  rwa [List.append_nil, Nat.add_zero, shapeAt_nil_zero] at this

/-- Where a plan without what follows has a shape, an item begins. -/
theorem split_of_shapeAt {p : Plan} {pos : Nat} {s : Shape} (h : shapeAt p none pos = some s) :
    ∃ (front : Plan) (item : Item) (back : Plan),
      p = front ++ (item, s) :: back ∧ front.size = pos := by
  induction p generalizing pos with
  | nil =>
    rw [shapeAt] at h
    split at h <;> cases h
  | cons e p ih =>
    obtain ⟨item, t⟩ := e
    rw [shapeAt] at h
    split at h
    · rename_i hpos
      cases h
      exact ⟨[], item, p, rfl, hpos.symm⟩
    · split at h
      · cases h
      · obtain ⟨front, item', back, rfl, hsize⟩ := ih h
        refine ⟨(item, t) :: front, item', back, rfl, ?_⟩
        rw [size_cons, hsize]
        dsimp only
        omega

end Plan

/-! ## Flow -/

/-- An item at `pos` leads only to places whose shape it leaves; `shapes` gives the shapes of
places. A hole is left with no values, as a loop is. -/
def Item.Flows (f : Routine Value) (shapes : Nat → Option Shape) (pos : Nat) (s : Shape) :
    Item → Prop
  | .hole _ => s = .values 0
  | .op ins => ins.WellFormed ∧ ∃ s', Admits f ins s s' ∧
      (ins.fallsThrough = true → shapes (pos + ins.size) = some s') ∧
      (ins.op.isJump = true → ∃ t, ins.target? pos = some t ∧ shapes t = some s')

/-- Every item of a plan that stands at `pos` leads only to places whose shape it leaves. -/
def Plan.FlowsAt (f : Routine Value) (shapes : Nat → Option Shape) : Nat → Plan → Prop
  | _, [] => True
  | pos, (item, s) :: rest => item.Flows f shapes pos s ∧ FlowsAt f shapes (pos + item.size) rest

theorem Instruction.target?_add {ins : Instruction} {pos t : Nat} (h : ins.target? pos = some t)
    (base : Nat) : ins.target? (base + pos) = some (base + t) := by
  unfold Instruction.target? at h ⊢
  split at h
  · rename_i hjump
    rw [if_pos hjump]
    dsimp only at h ⊢
    split at h
    · rename_i hback
      rw [if_pos hback]
      split at h
      · cases h
        rw [if_pos (by omega)]
        congr 1
        omega
      · cases h
    · rename_i hback
      rw [if_neg hback]
      cases h
      congr 1
      omega
  · cases h

section
variable {f g : Routine Value} {shapes shapes' : Nat → Option Shape}

theorem Item.Flows.mono {item : Item} {pos : Nat} {s : Shape} (hfg : Extends f g)
    (h : item.Flows f shapes pos s) : item.Flows g shapes pos s := by
  cases item with
  | hole exit => exact h
  | op ins =>
    obtain ⟨hw, s', hadm, hedges⟩ := h
    exact ⟨hw, s', hadm.mono hfg, hedges⟩

theorem Item.Flows.embed {item : Item} {pos : Nat} {s : Shape} (h : item.Flows f shapes pos s)
    (base : Nat) (hshapes : ∀ o t, shapes o = some t → shapes' (base + o) = some t) :
    item.Flows f shapes' (base + pos) s := by
  cases item with
  | hole exit => exact h
  | op ins =>
    obtain ⟨hw, s', hadm, hfalls, hjump⟩ := h
    refine ⟨hw, s', hadm, fun hf => ?_, fun hj => ?_⟩
    · rw [Nat.add_assoc]
      exact hshapes _ _ (hfalls hf)
    · obtain ⟨t, ht, hshape⟩ := hjump hj
      exact ⟨base + t, Instruction.target?_add ht base, hshapes _ _ hshape⟩

namespace Plan

theorem FlowsAt.mono {p : Plan} {pos : Nat} (hfg : Extends f g) (h : FlowsAt f shapes pos p) :
    FlowsAt g shapes pos p := by
  induction p generalizing pos with
  | nil => trivial
  | cons e p ih => exact ⟨h.1.mono hfg, ih h.2⟩

/-- A piece of code means the same wherever it stands. -/
theorem FlowsAt.embed {p : Plan} {pos : Nat} (h : FlowsAt f shapes pos p) (base : Nat)
    (hshapes : ∀ o t, shapes o = some t → shapes' (base + o) = some t) :
    FlowsAt f shapes' (base + pos) p := by
  induction p generalizing pos with
  | nil => trivial
  | cons e p ih =>
    refine ⟨h.1.embed base hshapes, ?_⟩
    rw [Nat.add_assoc]
    exact ih h.2

theorem flowsAt_append {p q : Plan} {pos : Nat} :
    FlowsAt f shapes pos (p ++ q) ↔
      FlowsAt f shapes pos p ∧ FlowsAt f shapes (pos + p.size) q := by
  induction p generalizing pos with
  | nil => simp [FlowsAt]
  | cons e p ih =>
    rw [List.cons_append, FlowsAt, FlowsAt, ih, size_cons, and_assoc, Nat.add_assoc]

/-- The item in the middle of a plan that flows. -/
theorem FlowsAt.item {front back : Plan} {item : Item} {s : Shape} {pos : Nat}
    (h : FlowsAt f shapes pos (front ++ (item, s) :: back)) :
    item.Flows f shapes (pos + front.size) s :=
  (flowsAt_append.1 h).2.1

/-- A plan that flows within itself and to what follows it. -/
def Flows (f : Routine Value) (p : Plan) (exit : Option Shape) : Prop :=
  FlowsAt f (shapeAt p exit) 0 p

theorem Flows.append {p q : Plan} {mid : Shape} {exit : Option Shape}
    (hp : Flows f p (some mid)) (hq : Flows f q exit) (hmid : shapeAt q exit 0 = some mid) :
    Flows f (p ++ q) exit := by
  refine flowsAt_append.2 ⟨?_, ?_⟩
  · have : FlowsAt f (shapeAt (p ++ q) exit) (0 + 0) p := FlowsAt.embed hp 0 fun o t ho => by
      rw [Nat.zero_add]
      exact shapeAt_append_of_eq ho fun m hm => by cases hm; exact hmid
    simpa using this
  · have : FlowsAt f (shapeAt (p ++ q) exit) (p.size + 0) q :=
      FlowsAt.embed hq p.size fun o t ho => by
      rw [shapeAt_append_add, ho]
    simpa using this

end Plan

end

/-! ## Pieces of code with their ends -/

/-- The items can be planned so that they flow from one shape to another. -/
def Flowing (f : Routine Value) (items : List Item) (entry exit : Shape) : Prop :=
  ∃ p : Plan, p.items = items ∧ p.Flows f (some exit) ∧ p.shapeAt (some exit) 0 = some entry

namespace Flowing

variable {f g : Routine Value} {a b : List Item} {entry mid exit : Shape}

theorem mono (hfg : Extends f g) (h : Flowing f a entry exit) : Flowing g a entry exit := by
  obtain ⟨p, hitems, hflows, hentry⟩ := h
  exact ⟨p, hitems, Plan.FlowsAt.mono hfg hflows, hentry⟩

theorem nil (f : Routine Value) (s : Shape) : Flowing f [] s s := ⟨[], rfl, trivial, rfl⟩

theorem append (ha : Flowing f a entry mid) (hb : Flowing f b mid exit) :
    Flowing f (a ++ b) entry exit := by
  obtain ⟨p, rfl, hp, hpentry⟩ := ha
  obtain ⟨q, rfl, hq, hqentry⟩ := hb
  refine ⟨p ++ q, Plan.items_append p q, hp.append hq hqentry, ?_⟩
  exact Plan.shapeAt_append_of_eq hpentry fun m hm => by cases hm; exact hqentry

/-- One instruction that does not jump. -/
theorem op {ins : Instruction} (hw : ins.WellFormed) (hjump : ins.op.isJump = false)
    (h : Admits f ins entry exit) : Flowing f [.op ins] entry exit := by
  refine ⟨[(.op ins, entry)], rfl, ⟨⟨hw, exit, h, fun _ => ?_, fun hj => ?_⟩, trivial⟩, rfl⟩
  · rw [Nat.zero_add]
    exact Plan.shapeAt_cons_add (.op ins, entry) [] (some exit) 0
  · rw [hjump] at hj
    cases hj

end Flowing

end Ember
