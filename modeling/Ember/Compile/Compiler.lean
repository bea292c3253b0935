import Ember.Ast.Basic
import Ember.Compile.Error
import Ember.Compile.Fragment
import Ember.Scope
import Std.Data.HashSet

/-! Compiling programs. Each program of a session is a chunk that is added to one growing stretch of
code and ends in `HALT`; the body of a function is compiled on its own and becomes a constant of the
code around it. The tables of constants and names only grow while a program is compiled; if it is
refused, they are cut back to what they were. -/
namespace Ember
set_option autoImplicit false

/-! ## Pools -/

/-- What tells apart constants that are kept once only. -/
inductive ConstantKey
  | int (n : Int64)
  | float (bits : UInt64)
  | str (s : String)
  deriving DecidableEq, Hashable

/-- Numbers and texts are kept once; the two zeros are one number, and a NaN is equal to none. -/
def ConstantKey.ofValue? : Value → Option ConstantKey
  | .int n => some (.int n)
  | .float x => if x.isNaN then none else some (.float (if x == 0 then 0 else x.toBits))
  | .str s => some (.str s)
  | _ => none

/-- Where each constant that is kept once only stands. -/
def knownAmong (constants : List Value) : Std.HashMap ConstantKey Nat :=
  constants.zipIdx.foldl (fun known e =>
    match ConstantKey.ofValue? e.1 with
    | some key => known.insert key e.2
    | none => known) ∅

theorem knownAmong_concat (constants : List Value) (v : Value) :
    knownAmong (constants ++ [v]) =
      match ConstantKey.ofValue? v with
      | some key => (knownAmong constants).insert key constants.length
      | none => knownAmong constants := by
  simp [knownAmong, List.zipIdx_append]

/-- The constants and names of one piece of code. -/
structure Pools where
  constants : Array Value
  known : Std.HashMap ConstantKey Nat
  names : OrderedMap String Unit
  indexed : known = knownAmong constants.toList

namespace Pools

def empty : Pools := ⟨#[], ∅, .empty, rfl⟩

def addConstant (p : Pools) (v : Value) : Pools :=
  match p with
  | ⟨constants, known, names, indexed⟩ =>
    let i := constants.size
    { constants := constants.push v
      known := match ConstantKey.ofValue? v with
        | some key => known.insert key i
        | none => known
      names
      indexed := by rw [Array.toList_push, knownAmong_concat, ← indexed, Array.length_toList] }

def addName (p : Pools) (name : String) : Pools := { p with names := p.names.insert name () }

/-- Keeps only so many constants and names. -/
def truncate (p : Pools) (constants names : Nat) : Pools where
  constants := p.constants.take constants
  known := knownAmong (p.constants.take constants).toList
  names := p.names.take names
  indexed := rfl

end Pools

/-- Operands of two bytes tell apart so many constants or names. -/
def poolLimit : Nat := 65536

/-- Counts of parts of a literal have two bytes. -/
def maxParts : Nat := 65535

/-- Counts of arguments and of parameters have one byte. -/
def maxArguments : Nat := 255

/-- Operands of jumps have two bytes. -/
def maxJump : Nat := 65535

/-! ## The state of a compilation -/

structure CompileState where
  pools : Pools
  /-- The scopes around the code that is being compiled, from the inside out; the last one is the
  top level. -/
  scopes : List Scope
  /-- The number of the next function. -/
  nextId : Nat

/-- What is refused keeps the state that had been reached. -/
abbrev CompileM (α : Type) : Type := StateT CompileState (Except (CompileError × CompileState)) α

namespace CompileM

def fail {α : Type} (fault : CompileFault) (span : Span) : CompileM α :=
  fun s => .error (⟨fault, span⟩, s)

/-- The first operand that does not fit its width. -/
def misfit? : List Nat → List Nat → Option (Nat × Nat)
  | value :: values, width :: widths =>
    if value < Nat.pow 256 width then misfit? values widths else some (value, width)
  | _, _ => none

/-- An instruction, if its operands fit. -/
def emit (op : Opcode) (operands : List Nat) (span : Span) : CompileM Item :=
  match misfit? operands op.widths with
  | some (value, width) => fail (.operandTooLarge op value width) span
  | none => pure (.op ⟨op, operands⟩)

/-- A forward jump, if it can reach so far. -/
def emitJump (op : Opcode) (distance : Nat) (span : Span) : CompileM Item :=
  if distance ≤ maxJump then pure (jumpOver op distance) else fail .jumpTooLarge span

/-- The place of a constant, which is added unless it is known. -/
def addConstant (value : Value) (span : Span) : CompileM Nat := do
  let key? := ConstantKey.ofValue? value
  let s ← get
  match key?.bind fun key => s.pools.known[key]? with
  | some i => pure i
  | none =>
    let i := (← get).pools.constants.size
    if i < poolLimit then
      modify fun s => { s with pools := s.pools.addConstant value }
      pure i
    else fail (.tooMany "constants" poolLimit) span

/-- The place of a name, which is added unless it is known. -/
def addName (name : String) (span : Span) : CompileM Nat := do
  match (← get).pools.names.position? name with
  | some i => pure i
  | none =>
    let i := (← get).pools.names.size
    if i < poolLimit then
      modify fun s => { s with pools := s.pools.addName name }
      pure i
    else fail (.tooMany "names" poolLimit) span

def inFunction : CompileM Bool := do
  return ((← get).scopes.head?.map Scope.isFunction).getD false

def resolve (name : String) : CompileM Symbol :=
  modifyGet fun s =>
    let (symbol, scopes) := Scope.resolve name s.scopes
    (symbol, { s with scopes })

/-- Declares a name in the innermost scope. -/
def declareHere (name : String) (span : Span) : CompileM Symbol := fun s =>
  match s with
  | ⟨pools, [], nextId⟩ =>
    .error (⟨.tooMany "local variables" Scope.slotLimit, span⟩, ⟨pools, [], nextId⟩)
  | ⟨pools, scope :: outer, nextId⟩ =>
    match scope.declare name with
    | (some symbol, scope) => .ok (symbol, ⟨pools, scope :: outer, nextId⟩)
    | (none, scope) =>
      .error (⟨.tooMany "local variables" Scope.slotLimit, span⟩, ⟨pools, scope :: outer, nextId⟩)

/-- Whether a name has been declared at the top level. -/
def isTopLevelName (name : String) : CompileM Bool := do
  return ((← get).scopes.getLast?.map (·.isDeclared name)).getD false

end CompileM

open CompileM

/-! ## Names -/

/-- Declares a name; at the top level it may not be one of a builtin. -/
def declare (builtins : Std.HashSet String) (name : String) (span : Span) : CompileM Symbol := do
  if !(← inFunction) && builtins.contains name then fail (.assignToBuiltin name) span
  else declareHere name span

/-- Where an assignment to a name stores. At the top level it declares the name; a function assigns
only to what has been declared. -/
def assignmentTarget (builtins : Std.HashSet String) (name : String) (span : Span) :
    CompileM Symbol := do
  if !(← inFunction) then declare builtins name span
  else
    match ← resolve name with
    | .global name =>
      if ← isTopLevelName name then pure (.global name)
      else if builtins.contains name then fail (.assignToBuiltin name) span
      else fail (.undeclaredAssignment name) span
    | symbol => pure symbol

def loadSymbol (symbol : Symbol) (span : Span) : CompileM Item := do
  match symbol with
  | .slot i => emit .loadFast [i] span
  | .free i => emit .loadFree [i] span
  | .global name => emit .loadGlobal [← addName name span] span
  | .name name => emit .loadName [← addName name span] span

def storeSymbol (symbol : Symbol) (span : Span) : CompileM Item := do
  match symbol with
  | .slot i => emit .storeFast [i] span
  | .free i => emit .storeFree [i] span
  | .global name => emit .storeGlobal [← addName name span] span
  | .name name => emit .storeName [← addName name span] span

def loadConstant (value : Value) (span : Span) : CompileM Fragment := do
  return #[← emit .loadConst [← addConstant value span] span]

def checkCount (count : Nat) (what : String) (limit : Nat) (span : Span) : CompileM Unit :=
  if count ≤ limit then pure () else fail (.tooMany what limit) span

/-! ## Operators -/

def UnaryOperator.opcode : UnaryOperator → Opcode
  | negate => .unaryNegative
  | plus => .unaryPositive
  | not => .unaryNot
  | invert => .unaryInvert

def Operation.instruction : Operation → Instruction
  | arithmetic op => ⟨.binaryOp, [op.selector]⟩
  | comparison op => ⟨.compareOp, [op.selector]⟩

/-- Both operands of a connective jump to a shared end if they decide it. -/
def joinConnective (op : Connective) (left right : Fragment) (span : Span) : CompileM Fragment := do
  let (jump, decided, undecided) : Opcode × Opcode × Opcode :=
    match op with
    | .and => (.popJumpForwardIfFalse, .pushFalse, .pushTrue)
    | .or => (.popJumpForwardIfTrue, .pushTrue, .pushFalse)
  let first ← emitJump jump (right.byteSize + 7) span
  let second ← emitJump jump 4 span
  let past ← emitJump .jumpForward 1 span
  return (left.push first ++ right).push second
    |>.push (.op ⟨undecided, []⟩) |>.push past |>.push (.op ⟨decided, []⟩)

/-! ## Functions -/

/-- The scope of a function with its parameters declared. -/
def parameterScope (name : String) (params : List String) (span : Span) : CompileM Scope :=
  params.foldlM (fun scope param =>
    match scope.declare param with
    | (some _, scope) => pure scope
    | (none, _) => fail (.tooMany "local variables" Scope.slotLimit) span) (Scope.function name)

/-- Starts the code of a function; gives back the pools of the code around it. -/
def enterFunction (scope : Scope) : CompileM Pools :=
  modifyGet fun s => (s.pools, { s with pools := .empty, scopes := scope :: s.scopes })

/-- Compiles the body of a function; if it is refused, goes back to the code around it. -/
def compileBody (outer : Pools) (body : CompileM Fragment) : CompileM Fragment := fun s =>
  match body s with
  | .ok result => .ok result
  | .error (e, s) => .error (e, { s with pools := outer, scopes := s.scopes.drop 1 })

/-- Ends the code of a function, and goes back to the code around it. -/
def leaveFunction (outer : Pools) (name : String) (params : List String) (code : Fragment) :
    CompileM (Routine Value) :=
  modifyGet fun s =>
    let scope := s.scopes.headD default
    let around := s.scopes.drop 1
    let routine : Routine Value := {
      id := s.nextId
      name
      params := params.toArray
      code := code.encode #[]
      constants := s.pools.constants
      names := s.pools.names.keys
      localCount := scope.locals.size
      freeVariables := scope.freeVariables
      scope := scope.summary around }
    (routine, ⟨outer, around, s.nextId + 1⟩)

def makeCell (f : FreeVariable) (span : Span) : CompileM Item :=
  match f.capture with
  | .slot i => emit .makeCell [i, 0] span
  | .free i => emit .makeCell [i, 1] span

/-- The code that makes a function a value: a closure, if it captures anything. -/
def loadFunction (routine : Routine Value) (span : Span) : CompileM Fragment := do
  let i ← addConstant (.function routine) span
  let captured := routine.freeVariables
  if captured.isEmpty then return #[← emit .loadConst [i] span]
  else
    let cells ← captured.mapM fun f => makeCell f span
    return cells.push (← emit .loadClosure [i, captured.size] span)

/-- Code that makes a function a value; `body` compiles its statements. -/
def compileFunction (name : String) (params : List String) (span : Span)
    (body : CompileM Fragment) : CompileM Fragment := do
  checkCount params.length "parameters" maxArguments span
  let scope ← parameterScope name params span
  let outer ← enterFunction scope
  let code ← compileBody outer body
  let routine ← leaveFunction outer name params (code.push (.op ⟨.returnValue, [0]⟩))
  loadFunction routine span

/-- The name of a function that is not given one. -/
def anonymous : String := "<anonymous>"

/-! ## Expressions and statements -/

section
variable (builtins : Std.HashSet String)

mutual

def compileExpr : Expr → CompileM Fragment
  | .int span n => loadConstant (.int n) span
  | .float span x => loadConstant (.float x) span
  | .str span s => loadConstant (.str s) span
  | .bool _ true => pure #[.op ⟨.pushTrue, []⟩]
  | .bool _ false => pure #[.op ⟨.pushFalse, []⟩]
  | .nil _ => pure #[.op ⟨.pushNil, []⟩]
  | .ident span name => do return #[← loadSymbol (← resolve name) span]
  | .list span items => do
    checkCount items.length "list elements" maxParts span
    let code ← compileExprs items #[]
    return code.push (← emit .buildList [items.length] span)
  | .set span items => do
    checkCount items.length "set elements" maxParts span
    let code ← compileExprs items #[]
    return code.push (← emit .buildSet [items.length] span)
  | .map span entries => do
    checkCount entries.length "map entries" maxParts span
    let code ← compileEntries entries #[]
    return code.push (← emit .buildMap [entries.length] span)
  | .unary _ op operand => do
    let code ← compileExpr operand
    return code.push (.op ⟨op.opcode, []⟩)
  | .binary _ op left right => do
    let first ← compileExpr left
    let second ← compileExpr right
    return (first ++ second).push (.op op.instruction)
  | .logical span op left right => do
    let first ← compileExpr left
    let second ← compileExpr right
    joinConnective op first second span
  | .call span callee args => do
    checkCount args.length "arguments" maxArguments span
    let code ← compileExpr callee
    let code ← compileExprs args code
    return code.push (← emit .call [args.length] span)
  | .index _ object key => do
    let first ← compileExpr object
    let second ← compileExpr key
    return (first ++ second).push (.op ⟨.binarySubscr, []⟩)
  | .attr span object name => do
    let code ← compileExpr object
    return code.push (← emit .loadAttr [← addName name span] span)
  | .func span params body => compileFunction anonymous params span (compileStmts false body #[])

/-- Code that evaluates expressions one after the other, after `code`. -/
def compileExprs : List Expr → Fragment → CompileM Fragment
  | [], code => pure code
  | e :: rest, code => do
    let more ← compileExpr e
    compileExprs rest (code ++ more)

/-- Code that evaluates keys and values in turn, after `code`. -/
def compileEntries : List (Expr × Expr) → Fragment → CompileM Fragment
  | [], code => pure code
  | (k, v) :: rest, code => do
    let first ← compileExpr k
    let second ← compileExpr v
    compileEntries rest (code ++ first ++ second)

/-- Code of a statement; `inLoop` says whether it stands in a loop of the same function. -/
def compileStmt (inLoop : Bool) : Stmt → CompileM Fragment
  | .var span name (.func funcSpan params body) => do
    let symbol ← declare builtins name span
    let code ← compileFunction name params funcSpan (compileStmts false body #[])
    return code.push (← storeSymbol symbol span)
  | .var span name value => do
    let code ← compileExpr value
    let symbol ← declare builtins name span
    return code.push (← storeSymbol symbol span)
  | .assign span (.ident targetSpan name) (.func funcSpan params body) => do
    let symbol ← assignmentTarget builtins name targetSpan
    let code ← compileFunction name params funcSpan (compileStmts false body #[])
    return code.push (← storeSymbol symbol span)
  | .assign span (.ident targetSpan name) value => do
    let symbol ← assignmentTarget builtins name targetSpan
    let code ← compileExpr value
    return code.push (← storeSymbol symbol span)
  | .assign _ (.index _ object key) value => do
    let first ← compileExpr value
    let second ← compileExpr object
    let third ← compileExpr key
    return (first ++ second ++ third).push (.op ⟨.storeSubscr, []⟩)
  | .assign span (.attr _ object name) value => do
    let first ← compileExpr value
    let second ← compileExpr object
    return (first ++ second).push (← emit .storeAttr [← addName name span] span)
  | .assign _ target _ => fail .invalidTarget target.span
  | .funcDef span name params body => do
    let symbol ← declare builtins name span
    let code ← compileFunction name params span (compileStmts false body #[])
    return code.push (← storeSymbol symbol span)
  | .return span none => do
    if ← inFunction then return #[.op ⟨.returnValue, [0]⟩]
    else fail .returnOutsideFunction span
  | .return span (some value) => do
    if ← inFunction then
      let code ← compileExpr value
      return code.push (.op ⟨.returnValue, [1]⟩)
    else fail .returnOutsideFunction span
  | .if span cond thenBody none => do
    let test ← compileExpr cond
    let first ← compileStmts inLoop thenBody #[]
    let skip ← emitJump .popJumpForwardIfFalse first.byteSize span
    return test.push skip ++ first
  | .if span cond thenBody (some elseBody) => do
    let test ← compileExpr cond
    let first ← compileStmts inLoop thenBody #[]
    let toElse ← emitJump .popJumpForwardIfFalse (first.byteSize + 3) span
    let second ← compileStmts inLoop elseBody #[]
    let toEnd ← emitJump .jumpForward second.byteSize span
    return (test.push toElse ++ first).push toEnd ++ second
  | .while span cond body => do
    let inner ← compileStmts true body #[]
    let bodySize := inner.byteSize
    let toTest ← emitJump .jumpForward bodySize span
    let test ← compileExpr cond
    let tail := test.byteSize + 3
    let again ← emit .popJumpBackwardIfTrue [bodySize + tail] span
    return (#[toTest] ++ inner.closeLoop bodySize tail ++ test).push again
  | .break span =>
    if inLoop then pure #[.hole .break] else fail (.outsideLoop .break) span
  | .continue span =>
    if inLoop then pure #[.hole .continue] else fail (.outsideLoop .continue) span
  | .print _ value => do
    let code ← compileExpr value
    return code.push (.op ⟨.print, []⟩)
  | .delete _ object key => do
    let first ← compileExpr object
    let second ← compileExpr key
    return (first ++ second).push (.op ⟨.deleteSubscr, []⟩)
  | .expr _ value => do
    let code ← compileExpr value
    return code.push (.op ⟨.popTop, []⟩)

/-- Code of statements one after the other, after `code`. -/
def compileStmts (inLoop : Bool) : List Stmt → Fragment → CompileM Fragment
  | [], code => pure code
  | st :: rest, code => do
    let more ← compileStmt inLoop st
    compileStmts inLoop rest (code ++ more)

end

/-- Code of a whole chunk, after `code`. The value of an expression that comes last stays on the
stack. -/
def compileChunk : List Stmt → Fragment → CompileM Fragment
  | [], code => pure (code.push (.op ⟨.halt, []⟩))
  | [.expr _ value], code => do
    let more ← compileExpr builtins value
    return (code ++ more).push (.op ⟨.halt, []⟩)
  | st :: rest, code => do
    let more ← compileStmt builtins false st
    compileChunk rest (code ++ more)

end

/-! ## Sessions -/

/-- What has been compiled so far. -/
structure Compiler where
  name : String
  builtins : Std.HashSet String
  code : Array UInt8
  pools : Pools
  scope : Scope
  nextId : Nat

namespace Compiler

/-- Nothing compiled yet. The names in `builtins` cannot be assigned to; functions are numbered
from `firstId`. -/
def start (builtins : Array String) (firstId : Nat) : Compiler where
  name := "main"
  builtins := builtins.foldl (fun s name => s.insert name) ∅
  code := #[]
  pools := .empty
  scope := .topLevel "main"
  nextId := firstId

/-- All code of the session as a function without parameters. -/
def main (c : Compiler) : Routine Value where
  id := 0
  name := c.name
  params := #[]
  code := c.code
  constants := c.pools.constants
  names := c.pools.names.keys
  localCount := 0
  freeVariables := #[]
  scope := c.scope.summary []

/-- The state in which the next program is compiled. -/
def state (c : Compiler) : CompileState := ⟨c.pools, [c.scope], c.nextId⟩

/-- How much there is in each table. -/
structure Checkpoint where
  constants : Nat
  names : Nat
  declared : Nat
  nextId : Nat

def checkpoint (c : Compiler) : Checkpoint :=
  ⟨c.pools.constants.size, c.pools.names.size, c.scope.declared.size, c.nextId⟩

/-- Cuts the tables back to what there was. -/
def rollback (c : Compiler) (k : Checkpoint) : Compiler :=
  { c with
    pools := c.pools.truncate k.constants k.names
    scope := c.scope.truncateDeclared k.declared
    nextId := k.nextId }

/-- Adds a program to the code of the session; the range is that of its code. If it is refused, what
it has added to the tables is taken back. -/
def submit (c : Compiler) (p : Program) : Except CompileError CodeRange × Compiler :=
  let k := c.checkpoint
  match compileChunk c.builtins p.statements #[] c.state with
  | .error (e, s) =>
    let left := { c with
      pools := s.pools, scope := s.scopes.getLastD c.scope, nextId := s.nextId }
    (.error e, left.rollback k)
  | .ok (fragment, s) =>
    let code := fragment.encode c.code
    (.ok ⟨c.code.size, code.size⟩,
      { c with code, pools := s.pools, scope := s.scopes.headD c.scope, nextId := s.nextId })

/-- What comes of a program that is not refused. -/
def compile (c : Compiler) (p : Program) : Except CompileError (CodeRange × Compiler) :=
  match c.submit p with
  | (.error e, _) => .error e
  | (.ok range, c) => .ok (range, c)

end Compiler

end Ember
