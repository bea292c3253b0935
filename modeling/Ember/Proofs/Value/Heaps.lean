import Ember.Builtin.Arguments
import Ember.Json.Convert

/-! What a change of one container does to a heap, and computations that change none: they may make
new containers, which come after those that are there, so every reference still refers to what it
referred to. -/
namespace Ember
set_option autoImplicit false

/-! ## Changing one container -/

section
variable {α : Type} {a : Array α} {i : Nat} {f g : α → α} {default : α}

/-- Only what becomes of the element that is there matters. -/
theorem modify_congr (h : f (a.getD i default) = g (a.getD i default)) :
    a.modify i f = a.modify i g := by
  apply Array.ext_getElem?
  intro j
  rw [Array.getElem?_modify, Array.getElem?_modify]
  by_cases hj : i = j
  · subst hj
    rw [if_pos rfl, if_pos rfl]
    rw [Array.getD_eq_getD_getElem?] at h
    cases hold : a[i]? with
    | none => rfl
    | some x =>
      rw [hold] at h
      exact congrArg some h
  · rw [if_neg hj, if_neg hj]

theorem modify_eq_self (h : f (a.getD i default) = a.getD i default) : a.modify i f = a := by
  rw [modify_congr (g := id) h]
  apply Array.ext_getElem?
  intro j
  rw [Array.getElem?_modify, Option.map_id, id, ite_self]

theorem getD_modify (hi : i < a.size) (f : α → α) (default : α) :
    (a.modify i f).getD i default = f (a.getD i default) := by
  rw [Array.getD_eq_getD_getElem?, Array.getD_eq_getD_getElem?, Array.getElem?_modify, if_pos rfl,
    Array.getElem?_eq_getElem hi]
  rfl

theorem getD_modify_of_ne {j : Nat} (hj : i ≠ j) (f : α → α) (default : α) :
    (a.modify i f).getD j default = a.getD j default := by
  rw [Array.getD_eq_getD_getElem?, Array.getD_eq_getD_getElem?, Array.getElem?_modify, if_neg hj]

end

namespace Heap

theorem modifyMap_congr (h : Heap) (r : MapRef)
    {f g : OrderedMap Key Value → OrderedMap Key Value} (hfg : f (h.map r) = g (h.map r)) :
    h.modifyMap r f = h.modifyMap r g := by
  rw [modifyMap, modifyMap, modify_congr hfg]

theorem modifyMap_eq_self (h : Heap) (r : MapRef)
    {f : OrderedMap Key Value → OrderedMap Key Value} (hf : f (h.map r) = h.map r) :
    h.modifyMap r f = h := by
  rw [modifyMap, modify_eq_self hf]

theorem modifySet_congr (h : Heap) (r : SetRef)
    {f g : OrderedMap Key Unit → OrderedMap Key Unit} (hfg : f (h.set r) = g (h.set r)) :
    h.modifySet r f = h.modifySet r g := by
  rw [modifySet, modifySet, modify_congr hfg]

theorem modifySet_eq_self (h : Heap) (r : SetRef)
    {f : OrderedMap Key Unit → OrderedMap Key Unit} (hf : f (h.set r) = h.set r) :
    h.modifySet r f = h := by
  rw [modifySet, modify_eq_self hf]

end Heap

/-! ## What stays on a heap -/

/-- Every list, map, set and cell of the first heap is on the second one under the same reference,
and holds the same there. -/
structure Heap.Remains (h h' : Heap) : Prop where
  lists : h.lists.toList <+: h'.lists.toList
  maps : h.maps.toList <+: h'.maps.toList
  sets : h.sets.toList <+: h'.sets.toList
  cells : h.cells.toList <+: h'.cells.toList

namespace Heap

variable {h h' h'' : Heap}

theorem Remains.refl (h : Heap) : h.Remains h :=
  ⟨List.prefix_refl _, List.prefix_refl _, List.prefix_refl _, List.prefix_refl _⟩

theorem Remains.trans (hfirst : h.Remains h') (hsecond : h'.Remains h'') : h.Remains h'' where
  lists := hfirst.lists.trans hsecond.lists
  maps := hfirst.maps.trans hsecond.maps
  sets := hfirst.sets.trans hsecond.sets
  cells := hfirst.cells.trans hsecond.cells

theorem prefix_push {α : Type} (a : Array α) (x : α) : a.toList <+: (a.push x).toList := by
  rw [Array.toList_push]
  exact List.prefix_append _ _

theorem remains_newList (h : Heap) (items : Array Value) : h.Remains (h.newList items).2 :=
  { Remains.refl h with lists := prefix_push _ _ }

theorem remains_newMap (h : Heap) (entries : OrderedMap Key Value) :
    h.Remains (h.newMap entries).2 :=
  { Remains.refl h with maps := prefix_push _ _ }

theorem remains_newSet (h : Heap) (members : OrderedMap Key Unit) :
    h.Remains (h.newSet members).2 :=
  { Remains.refl h with sets := prefix_push _ _ }

theorem remains_newId (h : Heap) : h.Remains h.newId.2 := { Remains.refl h with }

end Heap

/-! ## Computations -/

/-- Whether it succeeds or fails, the computation changes nothing that is on the heap. -/
def Additive {ε α : Type} (x : OnHeap ε α) : Prop :=
  ∀ h, match x h with
    | .ok _ h' | .error _ h' => h.Remains h'

namespace Additive

variable {ε α β : Type}

theorem pure (a : α) : Additive (pure a : OnHeap ε α) := Heap.Remains.refl

theorem throw (e : ε) : Additive (throw e : OnHeap ε α) := Heap.Remains.refl

theorem bind {x : OnHeap ε α} {k : α → OnHeap ε β} (hx : Additive x) (hk : ∀ a, Additive (k a)) :
    Additive (x >>= k) := by
  intro h
  have hfirst := hx h
  change match EStateM.bind x k h with
    | .ok _ h' | .error _ h' => h.Remains h'
  unfold EStateM.bind
  cases hr : x h with
  | error e h' =>
    rw [hr] at hfirst
    exact hfirst
  | ok a h' =>
    rw [hr] at hfirst
    have hsecond := hk a h'
    dsimp only
    cases hs : k a h' with
    | ok b h'' | error e h'' =>
      rw [hs] at hsecond
      exact hfirst.trans hsecond

theorem modifyGet {f : Heap → α × Heap} (hf : ∀ h : Heap, h.Remains (f h).2) :
    Additive (modifyGet f : OnHeap ε α) := hf

theorem ask (f : Heap → Except CallFault α) : Additive (ask f) := by
  intro h
  unfold Ember.ask
  cases f h <;> exact .refl h

theorem newList (items : Array Value) : Additive (OnHeap.newList items : OnHeap ε Value) :=
  .modifyGet fun h => h.remains_newList items

theorem newMap (entries : OrderedMap Key Value) :
    Additive (OnHeap.newMap entries : OnHeap ε Value) :=
  .modifyGet fun h => h.remains_newMap entries

theorem newSet (members : OrderedMap Key Unit) :
    Additive (OnHeap.newSet members : OnHeap ε Value) :=
  .modifyGet fun h => h.remains_newSet members

theorem newResult (isOk : Bool) (payload : Value) :
    Additive (OnHeap.newResult isOk payload : OnHeap ε Value) :=
  .modifyGet fun h => h.remains_newId

theorem newFailure (message : String) : Additive (OnHeap.newFailure message : OnHeap ε Value) :=
  .modifyGet fun h => h.remains_newId

end Additive

/-! ## Documents -/

namespace Json

mutual

theorem toValue_remains (j : Json) (h : Heap) : h.Remains (j.toValue h).2 := by
  match j with
  | .null | .bool _ | .number _ | .string _ => exact .refl h
  | .array items =>
    rw [toValue]
    exact (toValues_remains items #[] h).trans (Heap.remains_newList _ _)
  | .object members =>
    rw [toValue]
    exact (toEntries_remains members .empty h).trans (Heap.remains_newMap _ _)

theorem toValues_remains (items : List Json) (found : Array Value) (h : Heap) :
    h.Remains (toValues items found h).2 := by
  match items with
  | [] => exact .refl h
  | item :: rest =>
    rw [toValues]
    exact (toValue_remains item h).trans (toValues_remains rest _ _)

theorem toEntries_remains (members : List (String × Json)) (found : OrderedMap Key Value)
    (h : Heap) : h.Remains (toEntries members found h).2 := by
  match members with
  | [] => exact .refl h
  | (_, item) :: rest =>
    rw [toEntries]
    exact (toValue_remains item h).trans (toEntries_remains rest _ _)

end

end Json
end Ember
