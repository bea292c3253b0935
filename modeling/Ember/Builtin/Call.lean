import Ember.Builtin.Conversion
import Ember.Builtin.Database
import Ember.Builtin.Documents
import Ember.Builtin.Math
import Ember.Builtin.Strings
import Ember.Builtin.World

/-! Calling builtins. A builtin gives back one value; an error value means that the call failed. The
host of a session may add functions of its own, which are kept in a table. -/
namespace Ember
set_option autoImplicit false

/-- What a call may change. -/
structure CallState where
  heap : Heap
  world : World

/-- A function that the host of a session adds. -/
structure HostFunction where
  name : String
  run : Array Value → CallState → Value × CallState

/-- A call that needs nothing but the heap leaves the world alone. -/
def onHeap (x : HeapCall) (s : CallState) : Value × CallState :=
  match s with
  | ⟨heap, world⟩ =>
    match x heap with
    | .ok v heap => (v, ⟨heap, world⟩)
    | .error e heap => (e.toValue, ⟨heap, world⟩)

def inWorld (x : WorldCall) (s : CallState) : Value × CallState :=
  match s with
  | ⟨heap, world⟩ =>
    match x world heap with
    | .ok (v, world) heap => (v, ⟨heap, world⟩)
    | .error e heap => (e.toValue, ⟨heap, world⟩)

def Native.call (f : Native) (args : Array Value) (s : CallState) : Value × CallState :=
  match f with
  | .core f => onHeap (f.call args) s
  | .math f => onHeap (ask fun _ => f.call args) s
  | .json f => onHeap (f.call args) s
  | .strings f => onHeap (f.call args) s
  | .time f => inWorld (f.call args) s
  | .uuid f => inWorld (f.call args) s
  | .random f => inWorld (f.call args) s
  | .conversion f => onHeap (f.call args) s
  | .database f => inWorld (f.call args) s

/-- Calls a builtin; a host function is looked up in the table of the host. -/
def Builtin.call (host : Array HostFunction) (b : Builtin) (args : Array Value) (s : CallState) :
    Value × CallState :=
  match b with
  | .native f => f.call args s
  | .host _ slot =>
    match host[slot]? with
    | some f => f.run args s
    | none => (.nil, s)

end Ember
