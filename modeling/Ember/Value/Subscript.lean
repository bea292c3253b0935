import Ember.Value.Operators

/-! Items of containers and attributes of objects. A negative index counts from the end. Reading an
absent key or attribute of a map gives nil. -/
namespace Ember
set_option autoImplicit false

/-- The position that an index means in something of the given length. -/
def position? (index : Int64) (length : Nat) : Option Nat :=
  let i := if index < 0 then index + Int64.ofNat length else index
  if i < 0 || length ≤ i.toNatClampNeg then none else some i.toNatClampNeg

def keyOf (v : Value) : Except Fault Key :=
  match Key.ofValue? v with
  | some k => .ok k
  | none => .error (.unhashable v.typeName)

/-! ## Items -/

def getItem (h : Heap) (container key : Value) : Except Fault Value :=
  match container, key with
  | .list r, .int i =>
    let items := h.list r
    match position? i items.size with
    | some p => .ok (items.getD p .nil)
    | none => .error (.indexOutOfBounds i.toInt items.size)
  | .str s, .int i =>
    let chars := s.toList
    let length := chars.length
    match position? i length with
    | some p => .ok (.str (String.singleton (chars.getD p 'A')))
    | none => .error (.indexOutOfBounds i.toInt length)
  | .map r, key => do
    let k ← keyOf key
    return ((h.map r).get? k).getD .nil
  | .list _, key => .error (.badIndexType "list" key.typeName)
  | .str _, key => .error (.badIndexType "string" key.typeName)
  | container, _ => .error (.notSubscriptable container.typeName)

def setItem (container key value : Value) : OnHeap Fault Unit := do
  match container, key with
  | .list r, .int i =>
    let length := ((← get).list r).size
    match position? i length with
    | some p => modify fun h => h.modifyList r fun items => items.setIfInBounds p value
    | none => throw (.indexOutOfBounds i.toInt length)
  | .map r, key =>
    match keyOf key with
    | .ok k => modify fun h => h.modifyMap r fun entries => entries.insert k value
    | .error fault => throw fault
  | container, _ => throw (.noItemAssignment container.typeName)

def deleteItem (container key : Value) : OnHeap Fault Unit := do
  match container, key with
  | .list r, .int i =>
    let length := ((← get).list r).size
    match position? i length with
    | some p => modify fun h => h.modifyList r fun items => items.eraseIdxIfInBounds p
    | none => throw (.indexOutOfBounds i.toInt length)
  | .map r, key =>
    match keyOf key with
    | .ok k => modify fun h => h.modifyMap r fun entries => entries.erase k
    | .error fault => throw fault
  | .set r, key =>
    match keyOf key with
    | .ok k => modify fun h => h.modifySet r fun members => members.erase k
    | .error fault => throw fault
  | container, _ => throw (.noItemDeletion container.typeName)

/-! ## Attributes -/

def getAttribute (h : Heap) (object : Value) (name : String) : Except Fault Value :=
  match object with
  | .map r => .ok (((h.map r).get? (.str name)).getD .nil)
  | .library id l =>
    match l.member? name with
    | some m => .ok (.ofMember id m)
    | none => .error (.noMember l.name name)
  | object => .error (.noAttribute object.typeName name)

def setAttribute (object : Value) (name : String) (value : Value) : OnHeap Fault Unit :=
  match object with
  | .map r => modify fun h => h.modifyMap r fun entries => entries.insert (.str name) value
  | .library _ l => throw (.readOnlyLibrary l.name name)
  | object => throw (.cannotSetAttribute object.typeName name)

end Ember
