import Ember.Proofs.Value.Heaps
import Ember.Value.Operators

/-! Lists on the heap: what a list holds once one has been made or changed. -/
namespace Ember
namespace Heap
set_option autoImplicit false

theorem list_newList (h : Heap) (items : Array Value) :
    (h.newList items).2.list (h.newList items).1 = items := by
  rw [list, newList, Array.getD_eq_getD_getElem?, Array.getElem?_push_size]
  rfl

/-- A list that has been made changes no other one; a reference that was never handed out may have
become that of the new list. -/
theorem list_newList_of_ne (h : Heap) (items : Array Value) {r : ListRef}
    (hr : r ≠ (h.newList items).1) : (h.newList items).2.list r = h.list r := by
  have hindex : r.index ≠ h.lists.size := fun heq => hr (by cases r; cases heq; rfl)
  rw [list, list, newList, Array.getD_eq_getD_getElem?, Array.getD_eq_getD_getElem?,
    Array.getElem?_push, if_neg hindex]

theorem list_eq_empty (h : Heap) {r : ListRef} (hr : h.lists.size ≤ r.index) : h.list r = #[] := by
  rw [list, Array.getD_eq_getD_getElem?, Array.getElem?_eq_none hr]
  rfl

theorem index_lt_of_size_pos {h : Heap} {r : ListRef} (hpos : 0 < (h.list r).size) :
    r.index < h.lists.size := by
  refine Nat.lt_of_not_le fun hr => ?_
  rw [list_eq_empty h hr] at hpos
  exact Nat.lt_irrefl 0 hpos

theorem list_modifyList (h : Heap) {r : ListRef} (hr : r.index < h.lists.size)
    (f : Array Value → Array Value) : (h.modifyList r f).list r = f (h.list r) := by
  rw [list, list, modifyList, getD_modify hr]

/-- Only what becomes of the items that are there matters. -/
theorem modifyList_congr (h : Heap) (r : ListRef) {f g : Array Value → Array Value}
    (hfg : f (h.list r) = g (h.list r)) : h.modifyList r f = h.modifyList r g := by
  rw [modifyList, modifyList, modify_congr hfg]

end Heap
end Ember
