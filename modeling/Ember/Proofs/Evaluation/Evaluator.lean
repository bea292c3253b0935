import Ember.Ast.Basic
import Ember.Machine.State

/-! What programs without functions mean, said of their trees. Operands are evaluated from left to
right, loops test their condition before every round, and a statement ends normally or on its way
out of the innermost loop. Nothing here knows of code. -/
namespace Ember
set_option autoImplicit false

/-! ## Evaluations -/

/-- What a program works on. -/
structure Scene where
  globals : Globals
  heap : Heap
  world : World
  output : String

/-- Why an evaluation stops early. -/
inductive Stop
  | fault (f : Fault)
  /-- Something is met that only programs with functions have. -/
  | beyond
  /-- A loop has gone round as often as it was allowed to. -/
  | outOfFuel

abbrev Eval (α : Type) : Type := EStateM Stop Scene α

namespace Eval

variable {α : Type}

/-- What an operator does on the heap. -/
def onHeap (x : OnHeap Fault α) : Eval α := fun σ =>
  match x σ.heap with
  | .ok a heap => .ok a { σ with heap }
  | .error f heap => .error (.fault f) { σ with heap }

/-- What can be told from the heap. -/
def ask (f : Heap → Except Fault α) : Eval α := fun σ =>
  match f σ.heap with
  | .ok a => .ok a σ
  | .error e => .error (.fault e) σ

def truth (v : Value) : Eval Bool := ask fun h => .ok (v.isTruthy h)

def load (name : String) : Eval Value := fun σ =>
  match σ.globals.get? name with
  | some v => .ok v σ
  | none => .error (.fault (.undefinedVariable name)) σ

def store (name : String) (v : Value) : Eval Unit := fun σ =>
  .ok () { σ with globals := σ.globals.set name v }

def print (v : Value) : Eval Unit := fun σ =>
  .ok () { σ with output := σ.output ++ v.text σ.heap ++ "\n" }

/-- A call of a builtin; an error value stops the evaluation. -/
def call (host : Array HostFunction) (callee : Value) (args : Array Value) : Eval Value :=
  match callee with
  | .builtin _ b => fun σ =>
    match b.call host args ⟨σ.heap, σ.world⟩ with
    | (.error kind message, ⟨heap, world⟩) =>
      .error (.fault (.raised kind message)) { σ with heap, world }
    | (v, ⟨heap, world⟩) => .ok v { σ with heap, world }
  | .function _ | .closure .. => throw .beyond
  | v => throw (.fault (.notCallable v.typeName))

/-- The entries that pairs make up; of entries with one key the first gives the place and the last
gives the value. -/
def mapOf (pairs : List (Value × Value)) : Except Fault (OrderedMap Key Value) :=
  pairs.foldlM (fun found e => do return found.insert (← keyOf e.1) e.2) .empty

def setOf (values : List Value) : Except Fault (OrderedMap Key Unit) :=
  values.foldlM (fun found v => do return found.insert (← keyOf v) ()) .empty

end Eval

open Eval

def UnaryOperator.apply (v : Value) : UnaryOperator → Eval Value
  | negate => Eval.ask fun _ => Ember.negate v
  | plus => Eval.ask fun _ => affirm v
  | invert => Eval.ask fun _ => complement v
  | not => do return .bool !(← truth v)

def Operation.apply (v w : Value) : Operation → Eval Value
  | arithmetic op => Eval.onHeap (binary op v w)
  | comparison op => Eval.ask fun h => Ember.comparison h op v w

/-- The right operand is evaluated only if the left one does not decide; the value is a truth
value. -/
def Connective.join (left right : Eval Value) : Connective → Eval Value
  | and => do
    if ← truth (← left) then return .bool (← truth (← right)) else return .bool false
  | or => do
    if ← truth (← left) then return .bool true else return .bool (← truth (← right))

/-! ## Expressions -/

section
variable (host : Array HostFunction)

mutual

def Expr.eval : Expr → Eval Value
  | .int _ n => pure (.int n)
  | .float _ x => pure (.float x)
  | .str _ s => pure (.str s)
  | .bool _ b => pure (.bool b)
  | .nil _ => pure .nil
  | .ident _ name => load name
  | .list _ items => do Eval.onHeap (OnHeap.newList (← evalAll items).toArray)
  | .set _ items => do
    let values ← evalAll items
    Eval.onHeap (OnHeap.newSet (← Eval.ask fun _ => setOf values))
  | .map _ entries => do
    let pairs ← evalPairs entries
    Eval.onHeap (OnHeap.newMap (← Eval.ask fun _ => mapOf pairs))
  | .unary _ op operand => do op.apply (← operand.eval)
  | .binary _ op left right => do
    let v ← left.eval
    let w ← right.eval
    op.apply v w
  | .logical _ op left right => op.join left.eval right.eval
  | .call _ callee args => do
    let f ← callee.eval
    let values ← evalAll args
    Eval.call host f values.toArray
  | .index _ object key => do
    let container ← object.eval
    let k ← key.eval
    Eval.ask fun h => getItem h container k
  | .attr _ object name => do
    let v ← object.eval
    Eval.ask fun h => getAttribute h v name
  | .func .. => throw .beyond

def evalAll : List Expr → Eval (List Value)
  | [] => return []
  | e :: rest => do
    let v ← e.eval
    return v :: (← evalAll rest)

def evalPairs : List (Expr × Expr) → Eval (List (Value × Value))
  | [] => return []
  | (k, v) :: rest => do
    let key ← k.eval
    let value ← v.eval
    return (key, value) :: (← evalPairs rest)

end

/-! ## Statements -/

/-- How a statement ends. -/
inductive Ending
  | normal
  | break
  | continue

/-- Goes round while the test succeeds, but begins at most so many rounds. -/
def Eval.loop (test : Eval Bool) (body : Eval Ending) : Nat → Eval Ending
  | 0 => throw .outOfFuel
  | fuel + 1 => do
    if ← test then
      match ← body with
      | .break => return .normal
      | _ => loop test body fuel
    else return .normal

variable (fuel : Nat)

mutual

def Stmt.exec : Stmt → Eval Ending
  | .var _ name value => do
    store name (← value.eval host)
    return .normal
  | .assign _ (.ident _ name) value => do
    store name (← value.eval host)
    return .normal
  | .assign _ (.index _ object key) value => do
    let v ← value.eval host
    let container ← object.eval host
    let k ← key.eval host
    Eval.onHeap (setItem container k v)
    return .normal
  | .assign _ (.attr _ object name) value => do
    let v ← value.eval host
    let target ← object.eval host
    Eval.onHeap (setAttribute target name v)
    return .normal
  | .assign .. | .funcDef .. | .return .. => throw .beyond
  | .if _ cond thenBody none => do
    if ← truth (← cond.eval host) then execAll thenBody else return .normal
  | .if _ cond thenBody (some elseBody) => do
    if ← truth (← cond.eval host) then execAll thenBody else execAll elseBody
  | .while _ cond body => Eval.loop (do truth (← cond.eval host)) (execAll body) fuel
  | .break _ => return .break
  | .continue _ => return .continue
  | .print _ value => do
    print (← value.eval host)
    return .normal
  | .delete _ object key => do
    let container ← object.eval host
    let k ← key.eval host
    Eval.onHeap (deleteItem container k)
    return .normal
  | .expr _ value => do
    let _ ← value.eval host
    return .normal

/-- A statement that does not end normally ends the statements around it, too. -/
def execAll : List Stmt → Eval Ending
  | [] => return .normal
  | st :: rest => do
    match ← st.exec with
    | .normal => execAll rest
    | ending => return ending

end

/-! ## Programs -/

/-- The value of an expression that comes last, or nil. -/
def evalChunk : List Stmt → Eval Value
  | [] => return .nil
  | [.expr _ value] => value.eval host
  | st :: rest => do
    let _ ← st.exec host fuel
    evalChunk rest

end

/-- What has come of an evaluation, if it has finished: a value or a fault, and the scene it
leaves. -/
def Eval.outcome? : EStateM.Result Stop Scene Value → Option (Except Fault Value × Scene)
  | .ok v σ => some (.ok v, σ)
  | .error (.fault f) σ => some (.error f, σ)
  | .error _ _ => none

/-- What comes of a program whose loops go round at most `fuel` times. -/
def Program.outcome? (p : Program) (host : Array HostFunction) (fuel : Nat) (σ : Scene) :
    Option (Except Fault Value × Scene) :=
  Eval.outcome? (evalChunk host fuel p.statements σ)

/-! ## Programs without functions -/

mutual

def Expr.isFunctionFree : Expr → Bool
  | .int .. | .float .. | .str .. | .bool .. | .nil _ | .ident .. => true
  | .list _ items | .set _ items => allFunctionFree items
  | .map _ entries => pairsFunctionFree entries
  | .unary _ _ operand => operand.isFunctionFree
  | .binary _ _ left right | .logical _ _ left right => left.isFunctionFree && right.isFunctionFree
  | .call _ callee args => callee.isFunctionFree && allFunctionFree args
  | .index _ object key => object.isFunctionFree && key.isFunctionFree
  | .attr _ object _ => object.isFunctionFree
  | .func .. => false

def allFunctionFree : List Expr → Bool
  | [] => true
  | e :: rest => e.isFunctionFree && allFunctionFree rest

def pairsFunctionFree : List (Expr × Expr) → Bool
  | [] => true
  | (k, v) :: rest => k.isFunctionFree && v.isFunctionFree && pairsFunctionFree rest

end

mutual

def Stmt.isFunctionFree : Stmt → Bool
  | .var _ _ value | .print _ value | .expr _ value | .return _ (some value) =>
    value.isFunctionFree
  | .assign _ target value => target.isFunctionFree && value.isFunctionFree
  | .delete _ object key => object.isFunctionFree && key.isFunctionFree
  | .funcDef .. => false
  | .return _ none | .break _ | .continue _ => true
  | .if _ cond thenBody none => cond.isFunctionFree && bodyFunctionFree thenBody
  | .if _ cond thenBody (some elseBody) =>
    cond.isFunctionFree && bodyFunctionFree thenBody && bodyFunctionFree elseBody
  | .while _ cond body => cond.isFunctionFree && bodyFunctionFree body

def bodyFunctionFree : List Stmt → Bool
  | [] => true
  | st :: rest => st.isFunctionFree && bodyFunctionFree rest

end

/-- No function is defined in the program. -/
def Program.isFunctionFree (p : Program) : Bool := bodyFunctionFree p.statements

end Ember
