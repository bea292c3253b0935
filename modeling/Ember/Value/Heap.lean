import Ember.OrderedMap
import Ember.Value.Basic

/-! The heap: what references refer to. Nothing is ever removed from it, so a reference stays valid
and its index tells it apart from all others of its kind. A reference that was never handed out
reads as an empty container or as nil. -/
namespace Ember
set_option autoImplicit false

structure Heap where
  lists : Array (Array Value)
  maps : Array (OrderedMap Key Value)
  sets : Array (OrderedMap Key Unit)
  cells : Array Value
  /-- The number of the next closure, result or builtin that is made. -/
  nextId : Nat

namespace Heap

def empty : Heap := ⟨#[], #[], #[], #[], 1⟩

instance : Inhabited Heap := ⟨empty⟩

/-! ## Reading -/

def list (h : Heap) (r : ListRef) : Array Value := h.lists.getD r.index #[]

def map (h : Heap) (r : MapRef) : OrderedMap Key Value := h.maps.getD r.index .empty

def set (h : Heap) (r : SetRef) : OrderedMap Key Unit := h.sets.getD r.index .empty

def cell (h : Heap) (r : CellRef) : Value := h.cells.getD r.index .nil

/-! ## Making -/

def newList (h : Heap) (items : Array Value) : ListRef × Heap :=
  (⟨h.lists.size⟩, { h with lists := h.lists.push items })

def newMap (h : Heap) (entries : OrderedMap Key Value) : MapRef × Heap :=
  (⟨h.maps.size⟩, { h with maps := h.maps.push entries })

def newSet (h : Heap) (members : OrderedMap Key Unit) : SetRef × Heap :=
  (⟨h.sets.size⟩, { h with sets := h.sets.push members })

def newCell (h : Heap) (v : Value) : CellRef × Heap :=
  (⟨h.cells.size⟩, { h with cells := h.cells.push v })

def newId (h : Heap) : Nat × Heap := (h.nextId, { h with nextId := h.nextId + 1 })

/-! ## Changing -/

def modifyList (h : Heap) (r : ListRef) (f : Array Value → Array Value) : Heap :=
  { h with lists := h.lists.modify r.index f }

def modifyMap (h : Heap) (r : MapRef) (f : OrderedMap Key Value → OrderedMap Key Value) : Heap :=
  { h with maps := h.maps.modify r.index f }

def modifySet (h : Heap) (r : SetRef) (f : OrderedMap Key Unit → OrderedMap Key Unit) : Heap :=
  { h with sets := h.sets.modify r.index f }

def setCell (h : Heap) (r : CellRef) (v : Value) : Heap :=
  { h with cells := h.cells.setIfInBounds r.index v }

/-! ## Values made on the heap -/

def listValue (h : Heap) (items : Array Value) : Value × Heap :=
  let (r, h) := h.newList items
  (.list r, h)

def mapValue (h : Heap) (entries : OrderedMap Key Value) : Value × Heap :=
  let (r, h) := h.newMap entries
  (.map r, h)

def setValue (h : Heap) (members : OrderedMap Key Unit) : Value × Heap :=
  let (r, h) := h.newSet members
  (.set r, h)

def resultValue (h : Heap) (isOk : Bool) (payload : Value) : Value × Heap :=
  let (id, h) := h.newId
  (.result id isOk payload, h)

/-- The result that reports a failure of the world outside. -/
def failureValue (h : Heap) (message : String) : Value × Heap :=
  h.resultValue false (.error .runtime message)

end Heap

/-- Whether a condition holds of a value: numbers other than zero, texts and containers that are
not empty, and all that is neither. -/
def Value.isTruthy (h : Heap) : Value → Bool
  | .nil => false
  | .bool b => b
  | .int n => n != 0
  | .float x => x != 0
  | .str s => !s.isEmpty
  | .list r => !(h.list r).isEmpty
  | .map r => !(h.map r).isEmpty
  | .set r => !(h.set r).isEmpty
  | _ => true

end Ember
