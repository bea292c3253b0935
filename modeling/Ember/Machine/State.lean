import Ember.Machine.Frame
import Ember.Machine.Globals
import Ember.Settings

/-! The state of a run, and what instructions do to it: the stack, the slots and cells of the active
frame, and calls. A step that fails keeps what it has done so far. -/
namespace Ember
set_option autoImplicit false

structure Machine where
  /-- The function of the active frame. -/
  function : Routine Value
  /-- The offset of the next instruction. -/
  ip : Nat
  stack : Array Value
  /-- The calls that have not returned; the last one is active. -/
  frames : Array Frame
  /-- Frames that may be used again. -/
  pool : List Frame
  globals : Globals
  heap : Heap
  world : World
  /-- How many instructions have been begun. -/
  steps : Nat
  /-- What has been printed. -/
  output : String

/-- What does not change during a run. -/
structure Surroundings where
  settings : Settings
  host : Array HostFunction

/-- An action on the machine, which may fail. -/
abbrev Action (α : Type) : Type := EStateM Fault Machine α

namespace Machine

/-- A machine that is about to run a function from the given offset on. -/
def start (main : Routine Value) (offset : Nat) (globals : Globals) (heap : Heap) (world : World) :
    Machine where
  function := main
  ip := offset
  stack := #[]
  frames := #[Frame.new main 0 main.localCount]
  pool := []
  globals := globals
  heap := heap
  world := world
  steps := 0
  output := ""

/-- The names of the functions that are active, innermost first. -/
def callStack (m : Machine) : List String :=
  m.frames.toList.reverse.map fun f => f.function.name

def top? (m : Machine) : Option Value := m.stack.back?

end Machine

namespace Action

/-! ## The stack -/

def push (v : Value) : Action Unit := fun m => .ok () { m with stack := m.stack.push v }

def pop : Action Value := fun m =>
  match m.stack.back? with
  | some v => .ok v { m with stack := m.stack.pop }
  | none => .error (.stackUnderflow 1 0) m

/-- Takes `n` values off the stack, in the order in which they were pushed. -/
def popMany (n : Nat) : Action (Array Value) := fun m =>
  let size := m.stack.size
  if size < n then .error (.stackUnderflow n size) m
  else .ok (m.stack.extract (size - n) size) { m with stack := m.stack.shrink (size - n) }

/-! ## The heap -/

/-- What an operator does on the heap. -/
def onHeap {α : Type} (x : OnHeap Fault α) : Action α := fun m =>
  let heap := m.heap
  let others := { m with heap := .empty }
  match x heap with
  | .ok a heap => .ok a { others with heap }
  | .error f heap => .error f { others with heap }

/-- What can be told from the heap. -/
def ask {α : Type} (f : Heap → Except Fault α) : Action α := fun m =>
  match f m.heap with
  | .ok a => .ok a m
  | .error e => .error e m

/-! ## Tables of the active function -/

def constant (i : Nat) : Action Value := fun m =>
  match m.function.constants[i]? with
  | some v => .ok v m
  | none => .error (.constantOutOfRange i) m

def name (i : Nat) : Action String := fun m =>
  match m.function.names[i]? with
  | some n => .ok n m
  | none => .error (.nameOutOfRange i) m

/-! ## Names of the session -/

def loadGlobal (name : String) : Action Value := fun m =>
  match m.globals.get? name with
  | some v => .ok v m
  | none => .error (.undefinedVariable name) m

def storeGlobal (name : String) (v : Value) : Action Unit := fun m =>
  .ok () { m with globals := m.globals.set name v }

/-! ## Slots and cells of the active frame -/

/-- What a slot holds. -/
def slot (i : Nat) : Action Value := fun m =>
  match m.frames.back? with
  | none => .error .noActiveFrame m
  | some f =>
    match f.locals[i]? with
    | some v => .ok v m
    | none => .error (.slotOutOfRange i f.locals.size) m

def setSlot (i : Nat) (v : Value) : Action Unit := fun m =>
  .ok () { m with frames := m.frames.modify (m.frames.size - 1) fun f => f.setLocal i v }

def readCell (c : CellRef) : Action Value := fun m => .ok (m.heap.cell c) m

def writeCell (c : CellRef) (v : Value) : Action Unit := fun m =>
  .ok () { m with heap := m.heap.setCell c v }

/-- A captured cell. -/
def freeCell (i : Nat) : Action CellRef := fun m =>
  match m.frames.back? with
  | none => .error .noActiveFrame m
  | some f =>
    match f.cells[i]? with
    | some c => .ok c m
    | none => .error (.freeOutOfRange i f.function.name) m

/-- The value of a variable in a slot, which may have moved to a cell. -/
def loadFast (i : Nat) : Action Value := do
  match ← slot i with
  | .cell c => readCell c
  | v => return v

def storeFast (i : Nat) (v : Value) : Action Unit := do
  match ← slot i with
  | .cell c => writeCell c v
  | _ => setSlot i v

/-- The cell of a variable in a slot, to which it is moved if it has none yet. -/
def cellOfSlot (i : Nat) : Action CellRef := do
  match ← slot i with
  | .cell c => return c
  | v =>
    let c ← onHeap (modifyGet fun h => h.newCell v)
    setSlot i (.cell c)
    return c

def makeCell (i source : Nat) : Action CellRef :=
  match source with
  | 0 => cellOfSlot i
  | 1 => freeCell i
  | source => throw (.invalidCellSource source)

/-- The cells among the given values, which all have to be cells. -/
def cellsOf : List Value → Array CellRef → Except Fault (Array CellRef)
  | [], found => .ok found
  | .cell c :: rest, found => cellsOf rest (found.push c)
  | v :: _, _ => .error (.closureOfNonCell v.typeName)

def makeClosure (i count : Nat) : Action Value := do
  match ← constant i with
  | .function f =>
    let values ← popMany count
    let cells ← ask fun _ => cellsOf values.toList #[]
    let id ← onHeap (modifyGet Heap.newId)
    return .closure id f cells
  | v => throw (.closureOfNonFunction v.typeName)

/-! ## Containers -/

/-- The entries that keys and values in turn make up. -/
def entriesOf : List Value → OrderedMap Key Value → Except Fault (OrderedMap Key Value)
  | k :: v :: rest, found =>
    match keyOf k with
    | .ok key => entriesOf rest (found.insert key v)
    | .error e => .error e
  | _, found => .ok found

def membersOf : List Value → OrderedMap Key Unit → Except Fault (OrderedMap Key Unit)
  | [], found => .ok found
  | v :: rest, found =>
    match keyOf v with
    | .ok key => membersOf rest (found.insert key ())
    | .error e => .error e

/-! ## Control -/

def jump (target : Option Nat) (offset : Nat) : Action Unit := fun m =>
  match target with
  | some ip => .ok () { m with ip }
  | none => .error (.jumpBeforeStart offset) m

def print (v : Value) : Action Unit := fun m =>
  let line := v.text m.heap
  .ok () { m with output := m.output ++ line ++ "\n" }

/-- Begins a call of a function. -/
def enter (s : Surroundings) (f : Routine Value) (cells : Array CellRef) (args : Array Value) :
    Action Unit := fun m =>
  if args.size ≠ f.arity then .error (.wrongArity f.name f.arity args.size) m
  else if s.settings.maxCallDepth ≤ m.frames.size then
    .error (.depthLimit s.settings.maxCallDepth f.name) m
  else
    let (unused, pool) := match m.pool with
      | frame :: rest => (frame, rest)
      | [] => (Frame.new f 0 0, [])
    let frame :=
      { (unused.initWithLocals f m.ip args).withCells cells with base := m.stack.size }
    .ok () { m with frames := m.frames.push frame, pool, function := f, ip := 0 }

/-- Calls a builtin; an error value stops the run. -/
def callBuiltin (s : Surroundings) (b : Builtin) (args : Array Value) : Action Unit := fun m =>
  let state : CallState := ⟨m.heap, m.world⟩
  let others := { m with heap := .empty }
  match b.call s.host args state with
  | (.error kind message, ⟨heap, world⟩) =>
    .error (.raised kind message) { others with heap, world }
  | (v, ⟨heap, world⟩) => .ok () { others with heap, world, stack := others.stack.push v }

/-- Calls the value below the `count` arguments on the stack. -/
def call (s : Surroundings) (count : Nat) : Action Unit := do
  let values ← popMany (count + 1)
  let args := values.extract 1 values.size
  match values.getD 0 .nil with
  | .function f => enter s f #[] args
  | .closure _ f cells => enter s f cells args
  | .builtin _ b => callBuiltin s b args
  | v => throw (.notCallable v.typeName)

/-- Ends the active call, which has to be one of a function. -/
def leave (v : Value) : Action Unit := fun m =>
  if m.frames.size ≤ 1 then .error .returnOutsideFunction m
  else
    match m.frames.back? with
    | none => .error .noActiveFrame m
    | some frame =>
      let frames := m.frames.pop
      match frames.back? with
      | none => .error .noActiveFrame m
      | some caller =>
        .ok () { m with
          stack := (m.stack.shrink frame.base).push v
          ip := frame.resume
          function := caller.function
          frames
          pool := frame.release :: m.pool }

end Action
end Ember
