import Ember.Builtin.Call

/-! The names of a session: those that a program has bound, above the builtins, which stay as they
are. -/
namespace Ember
set_option autoImplicit false

structure Globals where
  builtins : OrderedMap String Value
  session : OrderedMap String Value

namespace Globals

/-- The value of a name. What a program has bound hides a builtin of the same name. -/
def get? (g : Globals) (name : String) : Option Value :=
  match g.session.get? name with
  | some v => some v
  | none => g.builtins.get? name

def set (g : Globals) (name : String) (v : Value) : Globals :=
  { g with session := g.session.insert name v }

def isBuiltin (g : Globals) (name : String) : Bool := g.builtins.contains name

def builtinNames (g : Globals) : Array String := g.builtins.keys

/-- Puts a builtin under a name, in the place of an earlier one. -/
def addBuiltin (g : Globals) (h : Heap) (name : String) (value : Nat → Value) : Globals × Heap :=
  let (id, h) := h.newId
  ({ g with builtins := g.builtins.insert name (value id) }, h)

def empty : Globals := ⟨.empty, .empty⟩

/-- Adds the functions of a host, each known by its place in the table. -/
def addHost (host : Array HostFunction) (g : Globals) (h : Heap) : Globals × Heap :=
  (List.range host.size).foldl (fun (acc : Globals × Heap) slot =>
    match host[slot]? with
    | some f => acc.1.addBuiltin acc.2 f.name fun id => .builtin id (.host f.name slot)
    | none => acc) (g, h)

/-- The names at the start of a session: the functions and libraries of the language, and then the
functions of the host, which may take the place of earlier ones. -/
def standard (host : Array HostFunction) (h : Heap) : Globals × Heap :=
  let core := CoreFunction.all.foldl (fun (acc : Globals × Heap) f =>
    acc.1.addBuiltin acc.2 f.name fun id => .builtin id (.native (.core f))) (empty, h)
  let libraries := Library.all.foldl (fun (acc : Globals × Heap) l =>
    acc.1.addBuiltin acc.2 l.name fun id => .library id l) core
  addHost host libraries.1 libraries.2

end Globals
end Ember
