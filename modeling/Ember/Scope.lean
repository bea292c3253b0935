import Ember.OrderedMap
import Ember.Value.Basic

/-! Lexical scopes. The top level binds names in the session; a function binds its parameters and
variables to slots of its frame, and reaches the variables of an enclosing function through cells.
Resolving a name in a function registers the cells that each function on the way out has to
capture. -/
namespace Ember
set_option autoImplicit false

/-- Where a name is stored. -/
inductive Symbol
  /-- A slot of the active frame. -/
  | slot (i : Nat)
  /-- A cell of the active closure. -/
  | free (i : Nat)
  /-- A name of the session, used in a function. -/
  | global (name : String)
  /-- A name of the session, used at the top level. -/
  | name (name : String)
  deriving DecidableEq, Repr

def Symbol.text : Symbol → String
  | slot i => "local " ++ toString i
  | free i => "free " ++ toString i
  | global n => "global " ++ n
  | name n => "name " ++ n

structure Scope where
  name : String
  kind : ScopeKind
  /-- The variables of a function; the position of each is its slot. -/
  locals : OrderedMap String Unit
  /-- The names declared at the top level. -/
  declared : OrderedMap String Unit
  /-- The variables captured from enclosing functions; the position of each is its cell. -/
  captured : OrderedMap String Capture

namespace Scope

def topLevel (name : String) : Scope := ⟨name, .topLevel, .empty, .empty, .empty⟩

def function (name : String) : Scope := ⟨name, .function, .empty, .empty, .empty⟩

instance : Inhabited Scope := ⟨topLevel ""⟩

def isFunction (s : Scope) : Bool := s.kind == .function

/-- Slots and cells are numbered by two bytes. -/
def slotLimit : Nat := 65536

def slotName? (s : Scope) (slot : Nat) : Option String := (s.locals.entries[slot]?).map Prod.fst

def freeVariables (s : Scope) : Array FreeVariable := s.captured.entries.map fun e => ⟨e.1, e.2⟩

def isDeclared (s : Scope) (name : String) : Bool :=
  match s.kind with
  | .topLevel => s.declared.contains name
  | .function => s.locals.contains name

/-- Keeps only the first `n` names declared at the top level. -/
def truncateDeclared (s : Scope) (n : Nat) : Scope := { s with declared := s.declared.take n }

/-- Declares a name, or finds where it was declared before. A function with no slot left gives no
symbol, and does not change. -/
def declare (s : Scope) (name : String) : Option Symbol × Scope :=
  match s.kind with
  | .topLevel => (some (.name name), { s with declared := s.declared.insert name () })
  | .function =>
    match s.locals.position? name with
    | some slot => (some (.slot slot), s)
    | none =>
      let slot := s.locals.size
      if slot < slotLimit then (some (.slot slot), { s with locals := s.locals.insert name () })
      else (none, s)

/-- Adds a variable that is captured from the enclosing function. -/
def capture (s : Scope) (name : String) (source : Capture) : Symbol × Scope :=
  let captured := s.captured.insert name source
  (.free ((captured.size - 1) % slotLimit), { s with captured })

/-- Where a name is stored, seen from the first of the given scopes, each of which is enclosed by
the next. -/
def resolve (name : String) : List Scope → Symbol × List Scope
  | [] => (.global name, [])
  | s :: outer =>
    match s.kind with
    | .topLevel => (.name name, s :: outer)
    | .function =>
      match s.locals.position? name with
      | some slot => (.slot slot, s :: outer)
      | none =>
        match s.captured.position? name with
        | some i => (.free (i % slotLimit), s :: outer)
        | none =>
          if (outer.head?.map isFunction).getD false then
            match resolve name outer with
            | (.slot i, outer) =>
              let (symbol, s) := s.capture name (.slot i)
              (symbol, s :: outer)
            | (.free i, outer) =>
              let (symbol, s) := s.capture name (.free i)
              (symbol, s :: outer)
            | (_, outer) => (.global name, s :: outer)
          else (.global name, s :: outer)

/-- The names of the scopes from the outermost in, joined by points. -/
def path (scopes : List Scope) : String :=
  String.intercalate "." (scopes.reverse.map (·.name))

/-- What a compiled function keeps of its scope, the first of the given ones. -/
def summary (s : Scope) (outer : List Scope) : ScopeSummary :=
  ⟨s.kind, path (s :: outer), s.locals.keys⟩

end Scope

/-! ## Trees of scopes -/

/-- Scopes with the place of the scope that encloses each, which stands before it. -/
structure ScopeTree where
  nodes : Array (Scope × Option Nat)

namespace ScopeTree

def empty : ScopeTree := ⟨#[]⟩

def add (t : ScopeTree) (s : Scope) (parent : Option Nat) : Nat × ScopeTree :=
  (t.nodes.size, ⟨t.nodes.push (s, parent)⟩)

def scope (t : ScopeTree) (id : Nat) : Scope := (t.nodes.getD id default).1

def parent? (t : ScopeTree) (id : Nat) : Option Nat := (t.nodes.getD id default).2

/-- The scope and those that enclose it, from the inside out. -/
def chain (t : ScopeTree) (id : Nat) : List Nat :=
  match t.parent? id with
  | some p => if p < id then id :: chain t p else [id]
  | none => [id]
termination_by id

def setScope (t : ScopeTree) (id : Nat) (s : Scope) : ScopeTree :=
  ⟨t.nodes.modify id fun node => (s, node.2)⟩

def path (t : ScopeTree) (id : Nat) : String := Scope.path ((t.chain id).map t.scope)

/-- Declares a name in a scope of the tree, which is taken out of the tree while it changes. -/
def declare (t : ScopeTree) (id : Nat) (name : String) : Option Symbol × ScopeTree :=
  let (s, parent) := t.nodes.getD id default
  let others := t.nodes.setIfInBounds id default
  let (symbol, s) := s.declare name
  (symbol, ⟨others.setIfInBounds id (s, parent)⟩)

def resolve (t : ScopeTree) (id : Nat) (name : String) : Symbol × ScopeTree :=
  let ids := t.chain id
  let (symbol, scopes) := Scope.resolve name (ids.map t.scope)
  (symbol, (ids.zip scopes).foldl (fun t e => t.setScope e.1 e.2) t)

def truncateDeclared (t : ScopeTree) (id n : Nat) : ScopeTree :=
  t.setScope id ((t.scope id).truncateDeclared n)

end ScopeTree

end Ember
