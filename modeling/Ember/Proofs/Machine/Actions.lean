import Ember.Machine.Run
import Ember.Proofs.Builtin.Policy

/-! What holds after an action, and the rules for the actions of which instructions are made. The
values that an action takes are given as the upper part of the stack. -/
namespace Ember
set_option autoImplicit false

/-- What holds after an action: of its value and the machine if it succeeds, of the fault and the
machine if it fails. -/
def Action.Ends {α : Type} (x : Action α) (m : Machine) (Q : α → Machine → Prop)
    (E : Fault → Machine → Prop) : Prop :=
  match x m with
  | .ok a m' => Q a m'
  | .error fault m' => E fault m'

namespace Action.Ends

variable {α β : Type} {m : Machine} {Q : α → Machine → Prop} {R : β → Machine → Prop}
  {E : Fault → Machine → Prop}

theorem bind {x : Action α} {k : α → Action β}
    (h : Ends x m (fun a m' => Ends (k a) m' R E) E) : Ends (x >>= k) m R E := by
  show match EStateM.bind x k m with
    | .ok a m' => R a m'
    | .error fault m' => E fault m'
  unfold EStateM.bind
  unfold Ends at h
  cases hx : x m with
  | ok a m' =>
    rw [hx] at h
    exact h
  | error fault m' =>
    rw [hx] at h
    exact h

theorem pure {a : α} (h : Q a m) : Ends (pure a) m Q E := h

theorem throw {fault : Fault} (h : E fault m) : Ends (throw fault : Action α) m Q E := h

theorem mono {x : Action α} {Q' : α → Machine → Prop} {E' : Fault → Machine → Prop}
    (h : Ends x m Q E) (hQ : ∀ a m', Q a m' → Q' a m') (hE : ∀ f m', E f m' → E' f m') :
    Ends x m Q' E' := by
  unfold Ends at h ⊢
  split at h
  · exact hQ _ _ h
  · exact hE _ _ h

/-! ## The stack -/

theorem push {Q : Unit → Machine → Prop} {v : Value}
    (h : Q () { m with stack := m.stack.push v }) : Ends (push v) m Q E := h

theorem pop {Q : Value → Machine → Prop} {st : Array Value} {v : Value}
    (hstack : m.stack = st.push v) (h : Q v { m with stack := st }) : Ends pop m Q E := by
  unfold Ends Action.pop
  rw [hstack, Array.back?_push]
  dsimp only
  rw [Array.pop_push]
  exact h

theorem popMany {Q : Array Value → Machine → Prop} {st args : Array Value} {n : Nat}
    (hstack : m.stack = st ++ args) (hn : args.size = n) (h : Q args { m with stack := st }) :
    Ends (popMany n) m Q E := by
  have hsize : m.stack.size = st.size + n := by rw [hstack, Array.size_append, hn]
  have hargs : m.stack.extract (m.stack.size - n) m.stack.size = args := by
    rw [hsize, Nat.add_sub_cancel, hstack, Array.extract_append_right, ← hn, Array.extract_size]
  have hst : m.stack.shrink (m.stack.size - n) = st := by
    rw [hsize, Nat.add_sub_cancel, Array.shrink_eq_take, hstack]
    simp
  unfold Ends Action.popMany
  dsimp only
  rw [if_neg (by omega), hargs, hst]
  exact h

theorem popTwo {Q : Value × Value → Machine → Prop} {st : Array Value} {v w : Value}
    (hstack : m.stack = (st.push v).push w) (h : Q (v, w) { m with stack := st }) :
    Ends popTwo m Q E :=
  .bind (.pop hstack (.bind (.pop rfl (.pure h))))

/-! ## The heap -/

theorem ask {Q : α → Machine → Prop} {A : α → Prop} {B : Fault → Prop} {f : Heap → Except Fault α}
    (hf : Promises (f m.heap) A B) (hQ : ∀ a, A a → Q a m) (hE : ∀ e, B e → E e m) :
    Ends (ask f) m Q E := by
  unfold Ends Action.ask
  cases hr : f m.heap with
  | ok a =>
    rw [hr] at hf
    exact hQ a hf
  | error e =>
    rw [hr] at hf
    exact hE e hf

theorem onHeap {P : Policy} {A : α → Prop} {B : Fault → Prop} {x : OnHeap Fault α}
    (hx : Keeps P x A B) (hobeys : m.heap.Obeys P)
    (hQ : ∀ a h, m.heap.Kept P h → A a → Q a { m with heap := h })
    (hE : ∀ e h, m.heap.Kept P h → B e → E e { m with heap := h }) : Ends (onHeap x) m Q E := by
  have hrun := hx m.heap hobeys
  unfold Ends Action.onHeap
  dsimp only
  cases hr : x m.heap with
  | ok a h =>
    rw [hr] at hrun
    exact hQ a h hrun.1 hrun.2
  | error e h =>
    rw [hr] at hrun
    exact hE e h hrun.1 hrun.2

/-- A change of the heap that cannot fail. -/
theorem modifyGet {f : Heap → α × Heap} (h : Q (f m.heap).1 { m with heap := (f m.heap).2 }) :
    Ends (Action.onHeap (modifyGet f)) m Q E := h

/-! ## Tables and slots -/

theorem constant {Q : Value → Machine → Prop} {i : Nat} {v : Value}
    (hi : m.function.constants[i]? = some v) (h : Q v m) : Ends (constant i) m Q E := by
  unfold Ends Action.constant
  rw [hi]
  exact h

theorem name {Q : String → Machine → Prop} {i : Nat} (hi : i < m.function.names.size)
    (h : ∀ n, Q n m) : Ends (name i) m Q E := by
  unfold Ends Action.name
  rw [Array.getElem?_eq_getElem hi]
  exact h _

theorem slot {Q : Value → Machine → Prop} {i : Nat} {frame : Frame} {v : Value}
    (hframe : m.frames.back? = some frame) (hi : frame.locals[i]? = some v) (h : Q v m) :
    Ends (slot i) m Q E := by
  unfold Ends Action.slot
  rw [hframe]
  dsimp only
  rw [hi]
  exact h

theorem readCell {Q : Value → Machine → Prop} {c : CellRef} (h : Q (m.heap.cell c) m) :
    Ends (readCell c) m Q E := h

theorem freeCell {Q : CellRef → Machine → Prop} {i : Nat} {frame : Frame} {c : CellRef}
    (hframe : m.frames.back? = some frame) (hi : frame.cells[i]? = some c) (h : Q c m) :
    Ends (freeCell i) m Q E := by
  unfold Ends Action.freeCell
  rw [hframe]
  dsimp only
  rw [hi]
  exact h

theorem jump {Q : Unit → Machine → Prop} {target : Option Nat} {t : Nat} (offset : Nat)
    (ht : target = some t) (h : Q () { m with ip := t }) : Ends (jump target offset) m Q E := by
  rw [ht]
  exact h

end Action.Ends

end Ember
