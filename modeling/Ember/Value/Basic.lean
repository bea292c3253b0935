import Ember.Value.Native

/-! Values of the language. Numbers, texts and the like are values in themselves; lists, maps, sets
and cells are references to what a heap holds. Functions, closures, builtins, libraries, results and
resources carry a number that tells apart two that were made at different times. -/
namespace Ember
set_option autoImplicit false

/-! ## Errors and references -/

/-- What sort of failure stops a run. -/
inductive ErrorKind
  | decode | type | arity | runtime
  deriving DecidableEq, Repr

namespace ErrorKind

def name : ErrorKind → String
  | decode => "Decode" | type => "Type" | arity => "Arity" | runtime => "Runtime"

def title : ErrorKind → String
  | decode => "decode error" | type => "type error" | arity => "arity error"
  | runtime => "runtime error"

end ErrorKind

structure ListRef where
  index : Nat
  deriving DecidableEq, Repr

structure MapRef where
  index : Nat
  deriving DecidableEq, Repr

structure SetRef where
  index : Nat
  deriving DecidableEq, Repr

structure CellRef where
  index : Nat
  deriving DecidableEq, Repr

/-! ## Compiled functions -/

inductive ScopeKind
  | topLevel
  | function
  deriving DecidableEq, Repr

/-- Where the frame that makes a closure finds a captured cell: in a slot of its own, or among the
cells that it captured itself. -/
inductive Capture
  | slot (i : Nat)
  | free (i : Nat)
  deriving DecidableEq, Repr

/-- A variable that a function uses and an enclosing function declares. -/
structure FreeVariable where
  name : String
  capture : Capture
  deriving DecidableEq, Repr

/-- What is known of the scope in which a function was compiled. -/
structure ScopeSummary where
  kind : ScopeKind
  /-- The names of the enclosing scopes and its own, joined by points. -/
  path : String
  /-- The names of the slots of a frame. -/
  slots : Array String
  deriving DecidableEq, Repr

/-- A compiled function, with constants of type `ν`. -/
structure Routine (ν : Type) where
  /-- Tells apart functions compiled at different times. -/
  id : Nat
  name : String
  params : Array String
  code : Array UInt8
  constants : Array ν
  names : Array String
  localCount : Nat
  freeVariables : Array FreeVariable
  scope : ScopeSummary

namespace Routine

variable {ν : Type}

def arity (r : Routine ν) : Nat := r.params.size

end Routine

/-! ## Values -/

/-- What a value may stand for outside of programs: a connection to a database, or something that a
host hands out under a type name of its own. -/
inductive Resource
  | connection (id : Nat)
  | foreign (id : Nat) (typeName : String)
  deriving DecidableEq, Repr

def Resource.typeName : Resource → String
  | connection _ => "pgx.conn"
  | foreign _ typeName => typeName

inductive Value
  | nil
  | bool (b : Bool)
  | int (n : Int64)
  | float (x : Float)
  | str (s : String)
  | list (ref : ListRef)
  | map (ref : MapRef)
  | set (ref : SetRef)
  | function (routine : Routine Value)
  | closure (id : Nat) (routine : Routine Value) (cells : Array CellRef)
  | builtin (id : Nat) (b : Builtin)
  | library (id : Nat) (l : Library)
  | result (id : Nat) (isOk : Bool) (payload : Value)
  | error (kind : ErrorKind) (message : String)
  | resource (r : Resource)
  | cell (ref : CellRef)

instance : Inhabited Value := ⟨.nil⟩

instance {ν : Type} : Inhabited (Routine ν) :=
  ⟨⟨0, "", #[], #[], #[], #[], 0, #[], ⟨.topLevel, "", #[]⟩⟩⟩

namespace Value

def typeName : Value → String
  | nil => "nil" | bool _ => "bool" | int _ => "int" | float _ => "float" | str _ => "string"
  | list _ => "list" | map _ => "map" | set _ => "set" | function _ => "function"
  | closure .. => "closure" | builtin .. => "builtin" | library .. => "module"
  | result .. => "result" | error .. => "error" | resource r => r.typeName | cell _ => "cell"

def asStr? : Value → Option String
  | str s => some s
  | _ => none

def asInt? : Value → Option Int64
  | int n => some n
  | _ => none

/-- The number that mixed arithmetic works with. -/
def asNumber? : Value → Option Float
  | int n => some n.toFloat
  | float x => some x
  | _ => none

def ofMember (id : Nat) : Member → Value
  | .number x => float x
  | .function f => builtin id (.native f)

end Value

/-! ## Keys -/

/-- What may be a key of a map or a member of a set. -/
inductive Key
  | nil
  | bool (b : Bool)
  | int (n : Int64)
  | str (s : String)
  deriving DecidableEq, Hashable, Repr

namespace Key

def toValue : Key → Value
  | nil => .nil
  | bool b => .bool b
  | int n => .int n
  | str s => .str s

def ofValue? : Value → Option Key
  | .nil => some nil
  | .bool b => some (bool b)
  | .int n => some (int n)
  | .str s => some (str s)
  | _ => none

@[simp] theorem ofValue?_toValue (k : Key) : ofValue? k.toValue = some k := by cases k <;> rfl

end Key

end Ember
