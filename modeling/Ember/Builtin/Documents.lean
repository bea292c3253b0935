import Ember.Builtin.Arguments

/-! The functions of the library `json`. -/
namespace Ember
namespace JsonFunction
set_option autoImplicit false

def encoded (h : Heap) (v : Value) : Except CallFault Value :=
  match Json.ofValue h v with
  | .ok j => .ok (.str j.text)
  | .error e => .error (.unencodable e)

/-- The result of reading a document. -/
def newDocument (source : String) : HeapCall :=
  match Json.parse source with
  | .ok j => do
    let v ← modifyGet fun h => j.toValue h
    OnHeap.newResult true v
  | .error e => OnHeap.newFailure (e.message source)

def call (f : JsonFunction) (args : Array Value) : HeapCall :=
  match f with
  | .marshal => ask fun h => do encoded h (← oneArgument "marshal" args)
  | .unmarshal => do
    let source ← ask fun _ => do strArgument "unmarshal" (← oneArgument "unmarshal" args)
    newDocument source

end JsonFunction
end Ember
