import Ember.Builtin.Fault
import Ember.Value.Subscript

/-! Arguments of builtins. -/
namespace Ember
set_option autoImplicit false

/-- A call of a builtin that needs nothing but the heap. -/
abbrev HeapCall : Type := OnHeap CallFault Value

/-- What only looks at the heap may fail but changes nothing. -/
def ask {α : Type} (f : Heap → Except CallFault α) : OnHeap CallFault α := fun h =>
  match f h with
  | .ok a => .ok a h
  | .error e => .error e h

/-- The one argument of a call. -/
def oneArgument (name : String) (args : Array Value) : Except CallFault Value :=
  match args.toList with
  | [v] => .ok v
  | _ => .error (.argumentCount name 1 args.size)

def twoArguments (name : String) (args : Array Value) : Except CallFault (Value × Value) :=
  match args.toList with
  | [v, w] => .ok (v, w)
  | _ => .error (.argumentCount name 2 args.size)

def threeArguments (name : String) (args : Array Value) :
    Except CallFault (Value × Value × Value) :=
  match args.toList with
  | [u, v, w] => .ok (u, v, w)
  | _ => .error (.argumentCount name 3 args.size)

def noArguments (name : String) (args : Array Value) : Except CallFault Unit :=
  if args.isEmpty then .ok () else .error (.argumentCount name 0 args.size)

def checkRange (name : String) (least most : Nat) (args : Array Value) : Except CallFault Unit :=
  if least ≤ args.size && args.size ≤ most then .ok ()
  else .error (.argumentRange name least most args.size)

def wrongType {α : Type} (name expected : String) (v : Value) : Except CallFault α :=
  .error (.wrongType name expected v.typeName)

def strArgument (name : String) : Value → Except CallFault String
  | .str s => .ok s
  | v => wrongType name "a string argument" v

def intArgument (name : String) : Value → Except CallFault Int64
  | .int n => .ok n
  | v => wrongType name "an int argument" v

def numberArgument (name : String) (v : Value) : Except CallFault Float :=
  match v.asNumber? with
  | some x => .ok x
  | none => wrongType name "a number argument" v

def keyArgument (v : Value) : Except CallFault Key :=
  match Key.ofValue? v with
  | some k => .ok k
  | none => .error (.unhashable v.typeName)

/-- The set of the given values. -/
def memberSet (items : List Value) (found : OrderedMap Key Unit) :
    Except CallFault (OrderedMap Key Unit) :=
  match items with
  | [] => .ok found
  | v :: rest =>
    match keyArgument v with
    | .error e => .error e
    | .ok k => memberSet rest (found.insert k ())

end Ember
