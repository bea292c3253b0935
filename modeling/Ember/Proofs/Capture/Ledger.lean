import Ember.Proofs.Compile.Chunks
import Ember.Proofs.Machine.Frames
import Ember.Proofs.Machine.Steps

/-! Which variable a cell holds. A ledger follows the runs of a session: it numbers calls in the
order in which they begin, and knows for every cell the call and the slot whose variable has moved
there. The invariant of compiled code is stated with it: cells of the slots of a call are its own,
and those that a closure carries belong to variables of the names that its function captures. -/
namespace Ember
set_option autoImplicit false

/-! ## Ledgers -/

/-- The variable in a slot of a call. -/
structure Variable where
  call : Nat
  slot : Nat
  deriving DecidableEq, Repr

structure Ledger where
  /-- The functions of the calls that have begun so far. -/
  calls : Array (Routine Value)
  /-- The calls that have not returned; the last one is active. -/
  active : Array Nat
  /-- The variable that each cell holds. -/
  owners : Array Variable

namespace Ledger

def empty : Ledger := ⟨#[], #[], #[]⟩

def enter (L : Ledger) (f : Routine Value) : Ledger :=
  { L with calls := L.calls.push f, active := L.active.push L.calls.size }

/-- A run begins, and the calls of earlier runs are over. -/
def launch (L : Ledger) (main : Routine Value) : Ledger :=
  { L.enter main with active := #[L.calls.size] }

def leave (L : Ledger) : Ledger := { L with active := L.active.pop }

/-- A variable of the active call has moved to a new cell. -/
def move (L : Ledger) (slot : Nat) : Ledger :=
  { L with owners := L.owners.push ⟨L.active.back?.getD 0, slot⟩ }

/-- The ledger after a step from `m` to `m'` by an instruction. -/
def after (L : Ledger) (ins : Instruction) (m m' : Machine) : Ledger :=
  if m.frames.size < m'.frames.size then L.enter m'.function
  else if m'.frames.size < m.frames.size then L.leave
  else if m.heap.cells.size < m'.heap.cells.size then L.move (ins.operand 0)
  else L

/-- The function of the call declares the variable under this name. -/
def Declares (L : Ledger) (x : Variable) (name : String) : Prop :=
  ∃ f, L.calls[x.call]? = some f ∧ f.scope.slots[x.slot]? = some name

/-- The cell holds a variable of this name. -/
def Names (L : Ledger) (c : CellRef) (name : String) : Prop :=
  ∃ x, L.owners[c.index]? = some x ∧ L.Declares x name

/-- Calls and owners are never forgotten. -/
structure Extends (L L' : Ledger) : Prop where
  calls : ∀ (a : Nat) (f : Routine Value), L.calls[a]? = some f → L'.calls[a]? = some f
  owners : ∀ (c : Nat) (x : Variable), L.owners[c]? = some x → L'.owners[c]? = some x

theorem Extends.refl (L : Ledger) : Extends L L := ⟨fun _ _ h => h, fun _ _ h => h⟩

theorem extends_enter (L : Ledger) (f : Routine Value) : Extends L (L.enter f) :=
  ⟨fun _ _ h => getElem?_push_of_some h _, fun _ _ h => h⟩

theorem extends_launch (L : Ledger) (main : Routine Value) : Extends L (L.launch main) :=
  ⟨fun _ _ h => getElem?_push_of_some h _, fun _ _ h => h⟩

theorem extends_leave (L : Ledger) : Extends L L.leave := ⟨fun _ _ h => h, fun _ _ h => h⟩

theorem extends_move (L : Ledger) (slot : Nat) : Extends L (L.move slot) :=
  ⟨fun _ _ h => h, fun _ _ h => getElem?_push_of_some h _⟩

theorem extends_after (L : Ledger) (ins : Instruction) (m m' : Machine) :
    Extends L (L.after ins m m') := by
  unfold after
  split
  · exact L.extends_enter _
  · split
    · exact L.extends_leave
    · split
      · exact L.extends_move _
      · exact .refl L

theorem Names.mono {L L' : Ledger} (h : L.Extends L') {c : CellRef} {name : String}
    (hnames : L.Names c name) : L'.Names c name := by
  obtain ⟨x, howner, f, hcall, hslot⟩ := hnames
  exact ⟨x, h.owners _ _ howner, f, h.calls _ _ hcall, hslot⟩

end Ledger

/-! ## Values -/

/-- Functions were compiled; a closure has a cell for each captured variable, which holds a variable
of that name. Cells do not occur as values. -/
inductive Bound (L : Ledger) : Value → Prop
  | plain {v : Value} (h : v.isPlain = true) : Bound L v
  | function {g : Routine Value} (hg : Compiled g) (hbare : g.freeVariables.size = 0) :
      Bound L (.function g)
  | closure {id : Nat} {g : Routine Value} {cells : Array CellRef} (hg : Compiled g)
      (hcells : cells.size = g.freeVariables.size)
      (hnames : ∀ (i : Nat) (v : FreeVariable) (c : CellRef), g.freeVariables[i]? = some v →
        cells[i]? = some c → L.Names c v.name) : Bound L (.closure id g cells)

/-- Only values that are bound by the ledger. -/
def binding (L : Ledger) : Policy := ⟨Bound L, fun _ h _ => .plain h⟩

section
variable {L L' : Ledger}

theorem Bound.grow {v : Value} (h : Bound L v) (hext : L.Extends L') : Bound L' v := by
  cases h with
  | plain h => exact .plain h
  | function hg hbare => exact .function hg hbare
  | closure hg hcells hnames =>
    exact .closure hg hcells fun i v c hv hc => (hnames i v c hv hc).mono hext

theorem Value.Obeys.grow {v : Value} (h : v.Obeys (binding L)) (hext : L.Extends L') :
    v.Obeys (binding L') := Bound.grow h hext

theorem Heap.Obeys.grow {h : Heap} (hobeys : h.Obeys (binding L)) (hext : L.Extends L') :
    h.Obeys (binding L') := hobeys.imp fun _ hv => Bound.grow hv hext

theorem Globals.Obeys.grow {g : Globals} (h : g.Obeys (binding L)) (hext : L.Extends L') :
    g.Obeys (binding L') := h.imp fun _ hv => Bound.grow hv hext

/-- A value that obeys is not a cell. -/
theorem Value.Obeys.ne_cell {v : Value} (h : v.Obeys (binding L)) (c : CellRef) : v ≠ .cell c := by
  rintro rfl
  cases h with
  | plain h => cases h

end

/-! ## Hosts -/

/-- A closure that is allowed has the cell under this name. -/
def Policy.Carries (P : Policy) (c : CellRef) (name : String) : Prop :=
  ∃ (id : Nat) (g : Routine Value) (cells : Array CellRef) (i : Nat) (v : FreeVariable),
    P.allows (.closure id g cells) ∧ g.freeVariables[i]? = some v ∧ v.name = name ∧
      cells[i]? = some c

/-- Besides values without code, compiled functions are allowed, and closures of them over cells of
other closures. -/
structure Policy.Lenient (P : Policy) : Prop where
  plain : ∀ v : Value, v.isPlain = true → P.allows v
  function : ∀ g : Routine Value, Compiled g → g.freeVariables.size = 0 → P.allows (.function g)
  closure : ∀ (id : Nat) (g : Routine Value) (cells : Array CellRef), Compiled g →
    cells.size = g.freeVariables.size →
    (∀ (i : Nat) (v : FreeVariable) (c : CellRef), g.freeVariables[i]? = some v →
      cells[i]? = some c → P.Carries c v.name) → P.allows (.closure id g cells)

theorem lenient_binding (L : Ledger) : (binding L).Lenient where
  plain _ h := .plain h
  function _ hg hbare := .function hg hbare
  closure id g cells hg hcells hcarries := by
    refine .closure hg hcells fun i v c hv hc => ?_
    obtain ⟨id', g', cells', j, v', hallowed, hv', hname, hc'⟩ := hcarries i v c hv hc
    cases hallowed with
    | plain h => cases h
    | closure _ _ hnames => exact hname ▸ hnames j v' c hv' hc'

/-- A host whose functions keep within every such policy and change no cells. They hand out values
that they are given or make, also functions and closures of compiled code, but no other code: code
comes from the compiler alone. Cells are for `MAKE_CELL` and `LOAD_CLOSURE` only. -/
def DiscreetHost (host : Array HostFunction) : Prop :=
  ∀ f ∈ host, ∀ P : Policy, P.Lenient → ∀ (args : Array Value) (s : CallState),
    (∀ v ∈ args, v.Obeys P) → s.heap.Obeys P → CallKept P s (f.run args s)

theorem DiscreetHost.call {host : Array HostFunction} (hhost : DiscreetHost host) (b : Builtin)
    {P : Policy} (hP : P.Lenient) {args : Array Value} (hargs : ∀ v ∈ args, v.Obeys P)
    {s : CallState} (hobeys : s.heap.Obeys P) : CallKept P s (b.call host args s) := by
  cases b with
  | native f => exact f.call_kept hargs hobeys
  | host name slot =>
    unfold Builtin.call
    dsimp only
    cases hf : host[slot]? with
    | none => exact ⟨Value.obeys_of_plain rfl rfl, .refl hobeys⟩
    | some f => exact hhost f (Array.mem_of_getElem? hf) P hP args s hargs hobeys

/-- A host can hand out any function that the compiler has made. -/
example (name : String) {g : Routine Value} (hg : Compiled g) (hbare : g.freeVariables.size = 0) :
    DiscreetHost #[⟨name, fun _ s => (.function g, s)⟩] := by
  intro f hf P hP args s _ hheap
  obtain rfl := Array.mem_singleton.1 hf
  exact ⟨hP.function g hg hbare, .refl hheap⟩

/-! ## Code -/

/-- A function whose tables the compiler has filled. -/
structure Built (f : Routine Value) : Prop where
  constant : ∀ v ∈ f.constants, v.isConstant = true
  feeds : ∀ g, Value.function g ∈ f.constants → f.Feeds g
  compiled : ∀ g, Value.function g ∈ f.constants → Compiled g
  free : f.freeVariables.size ≤ Scope.slotLimit

/-- The offset is one of planned code, at which the stack of the call has the shape. -/
def Site (f : Routine Value) (pos : Nat) (s : Shape) : Prop :=
  ∃ start row plan, Planned f start row plan ∧ plan.shapeFrom start pos = some s

theorem Compiled.built {g : Routine Value} (h : Compiled g) : Built g := by
  cases h with
  | intro _ _ hfree _ _ hconstant hfeeds hinner =>
    exact ⟨hconstant, hfeeds, hinner, Nat.le_of_lt hfree⟩

theorem Compiled.entry {g : Routine Value} (h : Compiled g) : Site g 0 (.values 0) := by
  cases h with
  | @intro g row p _ _ _ hplan => exact ⟨0, row, p, hplan, hplan.entry_shape⟩

theorem Compiled.kind {g : Routine Value} (h : Compiled g) : g.scope.kind = .function := by
  cases h with
  | intro hkind => exact hkind

/-- What is known of the instruction at a place in planned code. -/
structure Stands (f : Routine Value) (pos : Nat) (ins : Instruction) (s s' : Shape) : Prop where
  decoded : decode f.code pos = .ok ins
  admits : Admits f ins s s'
  falls : ins.fallsThrough = true → Site f (pos + ins.size) s'
  lands : ins.op.isJump = true → ∃ t, ins.target? pos = some t ∧ Site f t s'

theorem Site.visit {f : Routine Value} {pos : Nat} {s : Shape} (h : Site f pos s) :
    ∃ ins s', Stands f pos ins s s' := by
  obtain ⟨start, row, plan, hplanned, hs⟩ := h
  obtain ⟨ins, s', hdecoded, -, -, hadmits, hfalls, hjump⟩ := hplanned.visit hs
  refine ⟨ins, s', hdecoded, hadmits, fun hf => ⟨start, row, plan, hplanned, hfalls hf⟩,
    fun hj => ?_⟩
  obtain ⟨t, ht, hshape⟩ := hjump hj
  exact ⟨t, ht, start, row, plan, hplanned, hshape⟩

/-! ## Calls -/

/-- What holds of the frame of the call with number `a`. -/
structure Activation (L : Ledger) (frame : Frame) (a : Nat) : Prop where
  function : L.calls[a]? = some frame.function
  built : Built frame.function
  slots : frame.function.localCount ≤ frame.locals.size
  captured : frame.function.scope.kind = .function →
    frame.cells.size = frame.function.freeVariables.size
  names : ∀ (j : Nat) (v : FreeVariable) (c : CellRef), frame.function.freeVariables[j]? = some v →
    frame.cells[j]? = some c → L.Names c v.name
  owned : ∀ (i : Nat) (c : CellRef), frame.locals[i]? = some (.cell c) →
    L.owners[c.index]? = some ⟨a, i⟩
  moved : ∀ i c : Nat, L.owners[c]? = some ⟨a, i⟩ → frame.locals[i]? = some (.cell ⟨c⟩)
  locals : ∀ v ∈ frame.locals, v.Obeys (binding L) ∨ ∃ c, v = .cell c

theorem Activation.grow {L L' : Ledger} {frame : Frame} {a : Nat} (h : Activation L frame a)
    (hext : L.Extends L')
    (hown : ∀ c i : Nat, L'.owners[c]? = some ⟨a, i⟩ → L.owners[c]? = some ⟨a, i⟩) :
    Activation L' frame a where
  function := hext.calls _ _ h.function
  built := h.built
  slots := h.slots
  captured := h.captured
  names j v c hv hc := (h.names j v c hv hc).mono hext
  owned i c hc := hext.owners _ _ (h.owned i c hc)
  moved i c hc := h.moved i c (hown c i hc)
  locals v hv := (h.locals v hv).imp (fun hv => hv.grow hext) id

/-- What holds of all calls that have not returned. -/
structure Calls (L : Ledger) (frames : Array Frame) : Prop where
  size : L.active.size = frames.size
  begun : ∀ a ∈ L.active, a < L.calls.size
  distinct : ∀ j k a : Nat, L.active[j]? = some a → L.active[k]? = some a → j = k
  activation : ∀ (k a : Nat) (frame : Frame), L.active[k]? = some a → frames[k]? = some frame →
    Activation L frame a
  outermost : ∀ frame, frames[0]? = some frame → frame.function.scope.kind = .topLevel
  inner : ∀ (k : Nat) (frame : Frame), frames[k + 1]? = some frame →
    frame.function.scope.kind = .function
  waits : ∀ (k : Nat) (frame next : Frame), frames[k]? = some frame → frames[k + 1]? = some next →
    frame.base ≤ next.base ∧
      Site frame.function next.resume (.values (next.base + 1 - frame.base))

/-- What holds of what outlives a run. -/
structure Store (L : Ledger) (heap : Heap) (globals : Globals) : Prop where
  size : L.owners.size = heap.cells.size
  begun : ∀ x ∈ L.owners, x.call < L.calls.size
  distinct : ∀ (c c' : Nat) (x : Variable), L.owners[c]? = some x → L.owners[c']? = some x → c = c'
  heap : heap.Obeys (binding L)
  globals : globals.Obeys (binding L)

theorem Store.kept {L : Ledger} {heap heap' : Heap} {globals globals' : Globals}
    (h : Store L heap globals) (hkept : heap.Kept (binding L) heap')
    (hglobals : globals'.Obeys (binding L)) : Store L heap' globals' :=
  ⟨by rw [hkept.cells]; exact h.size, h.begun, h.distinct, hkept.obeys, hglobals⟩

/-- No cell is made. -/
theorem Store.grow {L L' : Ledger} {heap : Heap} {globals : Globals} (h : Store L heap globals)
    (hext : L.Extends L') (howners : L'.owners = L.owners) : Store L' heap globals := by
  refine ⟨howners ▸ h.size, fun x hx => ?_, howners ▸ h.distinct, h.heap.grow hext,
    h.globals.grow hext⟩
  rw [howners] at hx
  exact Nat.lt_of_lt_of_le (h.begun x hx) (size_le_of_getElem? hext.calls)

/-- A cell is given a value. -/
theorem Store.setCell {L : Ledger} {heap : Heap} {globals : Globals} (h : Store L heap globals)
    (c : CellRef) {v : Value} (hv : v.Obeys (binding L)) : Store L (heap.setCell c v) globals := by
  refine ⟨?_, h.begun, h.distinct, h.heap.setCell c hv, h.globals⟩
  rw [h.size]
  exact Array.size_setIfInBounds.symm

/-- The value is the cell that the frame has for a captured variable. -/
def Frame.Gives (frame : Frame) : Capture → Value → Prop
  | .slot i, v => ∃ c, v = .cell c ∧ frame.locals[i]? = some (.cell c)
  | .free j, v => ∃ c, v = .cell c ∧ frame.cells[j]? = some c

/-- The stack at a place of a given shape: values, and above them the cells that have been gathered
for a closure. -/
def Laid (L : Ledger) (frame : Frame) (s : Shape) (stack : Array Value) : Prop :=
  ∃ vals gathered : Array Value, stack = vals ++ gathered ∧ vals.size = frame.base + s.plain ∧
    (∀ v ∈ vals, v.Obeys (binding L)) ∧ List.Forall₂ frame.Gives s.cells gathered.toList

/-- The invariant of a run of compiled code. -/
structure Tracks (L : Ledger) (m : Machine) : Prop where
  calls : Calls L m.frames
  store : Store L m.heap m.globals
  here : ∃ (frame : Frame) (s : Shape), m.frames.back? = some frame ∧
    m.function = frame.function ∧ Site frame.function m.ip s ∧ Laid L frame s m.stack

/-! ## Calls that begin, change and end -/

section
variable {L L' : Ledger} {callers : Array Frame} {frame frame' : Frame} {older : Array Nat}
  {a : Nat}

theorem getElem?_push_cases {α : Type} {xs : Array α} {x y : α} {k : Nat}
    (h : (xs.push x)[k]? = some y) : (k < xs.size ∧ xs[k]? = some y) ∨ (k = xs.size ∧ y = x) := by
  rw [Array.getElem?_push] at h
  split at h
  · exact .inr ⟨by assumption, (Option.some.inj h).symm⟩
  · have := (Array.getElem?_eq_some_iff.1 h).1
    exact .inl ⟨this, h⟩

namespace Calls

theorem size_older (h : Calls L (callers.push frame)) (hactive : L.active = older.push a) :
    older.size = callers.size := by
  have := h.size
  rw [hactive, Array.size_push, Array.size_push] at this
  omega

/-- The active call. -/
theorem last (h : Calls L (callers.push frame)) (hactive : L.active = older.push a) :
    Activation L frame a := by
  refine h.activation callers.size a frame ?_ (by simp)
  rw [hactive, ← h.size_older hactive]
  simp

/-- The active call changes its slots, and no other call gets a cell. -/
theorem update (h : Calls L (callers.push frame)) (hactive : L.active = older.push a)
    (hext : L.Extends L') (hactive' : L'.active = L.active)
    (hown : ∀ b, b ≠ a → ∀ c i : Nat, L'.owners[c]? = some ⟨b, i⟩ → L.owners[c]? = some ⟨b, i⟩)
    (hframe : Activation L' frame' a) (hfunction : frame'.function = frame.function)
    (hbase : frame'.base = frame.base) (hresume : frame'.resume = frame.resume) :
    Calls L' (callers.push frame') := by
  have hsize := h.size_older hactive
  refine ⟨?_, fun b hb => ?_, ?_, fun k b f hb hf => ?_, fun f hf => ?_, fun k f hf => ?_,
    fun k f next hf hnext => ?_⟩
  · rw [hactive', h.size, Array.size_push, Array.size_push]
  · rw [hactive'] at hb
    exact Nat.lt_of_lt_of_le (h.begun b hb) (size_le_of_getElem? hext.calls)
  · rw [hactive']
    exact h.distinct
  · rw [hactive'] at hb
    rcases getElem?_push_cases hf with ⟨hk, hf⟩ | ⟨rfl, rfl⟩
    · have hne : b ≠ a := by
        rintro rfl
        have hlast : L.active[callers.size]? = some b := by
          rw [hactive, ← hsize]
          simp
        have := h.distinct _ _ _ hb hlast
        omega
      exact (h.activation k b f hb (getElem?_push_of_some hf _)).grow hext (hown b hne)
    · rw [hactive, ← hsize, Array.getElem?_push_size] at hb
      cases hb
      exact hframe
  · rcases getElem?_push_cases hf with ⟨-, hf⟩ | ⟨hk, rfl⟩
    · exact h.outermost f (getElem?_push_of_some hf _)
    · rw [hfunction]
      exact h.outermost frame (by rw [hk]; simp)
  · rcases getElem?_push_cases hf with ⟨-, hf⟩ | ⟨hk, rfl⟩
    · exact h.inner k f (getElem?_push_of_some hf _)
    · rw [hfunction]
      exact h.inner k frame (by rw [hk]; simp)
  · rcases getElem?_push_cases hf with ⟨hk, hf⟩ | ⟨rfl, rfl⟩
    · have hbelow : (callers.push frame)[k]? = some f := getElem?_push_of_some hf _
      rcases getElem?_push_cases hnext with ⟨-, hnext⟩ | ⟨hk', rfl⟩
      · exact h.waits k f next hbelow (getElem?_push_of_some hnext _)
      · have hwaits := h.waits k f frame hbelow (by rw [hk']; simp)
        rwa [hbase, hresume]
    · have := (Array.getElem?_eq_some_iff.1 hnext).1
      rw [Array.size_push] at this
      omega

/-- A call begins. -/
theorem enter (h : Calls L (callers.push frame)) {callee : Frame}
    (hcallee : Activation (L.enter callee.function) callee L.calls.size)
    (hkind : callee.function.scope.kind = .function) (hbase : frame.base ≤ callee.base)
    (hsite : Site frame.function callee.resume (.values (callee.base + 1 - frame.base))) :
    Calls (L.enter callee.function) ((callers.push frame).push callee) := by
  have hext := L.extends_enter callee.function
  refine ⟨?_, fun b hb => ?_, fun j k b hj hk => ?_, fun k b f hb hf => ?_, fun f hf => ?_,
    fun k f hf => ?_, fun k f next hf hnext => ?_⟩
  · change (L.active.push _).size = _
    rw [Array.size_push, Array.size_push, h.size]
  · change b < (L.calls.push _).size
    rw [Array.size_push]
    rcases Array.mem_push.1 hb with hb | rfl
    · have := h.begun b hb
      omega
    · omega
  · -- the number of the new call is larger than those of all others
    rcases getElem?_push_cases hj with ⟨-, hj⟩ | ⟨hj, rfl⟩
    · rcases getElem?_push_cases hk with ⟨-, hk⟩ | ⟨-, rfl⟩
      · exact h.distinct j k b hj hk
      · have := h.begun _ (Array.mem_of_getElem? hj)
        omega
    · rcases getElem?_push_cases hk with ⟨-, hk⟩ | ⟨hk, -⟩
      · have := h.begun _ (Array.mem_of_getElem? hk)
        omega
      · omega
  · rcases getElem?_push_cases hf with ⟨hk, hf⟩ | ⟨hk, rfl⟩
    · rcases getElem?_push_cases hb with ⟨-, hb⟩ | ⟨hb, -⟩
      · exact (h.activation k b f hb hf).grow hext fun _ _ hc => hc
      · rw [h.size] at hb
        omega
    · rcases getElem?_push_cases hb with ⟨hb, -⟩ | ⟨-, rfl⟩
      · rw [h.size] at hb
        omega
      · exact hcallee
  · rcases getElem?_push_cases hf with ⟨-, hf⟩ | ⟨hk, -⟩
    · exact h.outermost f hf
    · rw [Array.size_push] at hk
      omega
  · rcases getElem?_push_cases hf with ⟨-, hf⟩ | ⟨-, rfl⟩
    · exact h.inner k f hf
    · exact hkind
  · rcases getElem?_push_cases hf with ⟨-, hbelow⟩ | ⟨hk, rfl⟩
    · rcases getElem?_push_cases hnext with ⟨-, hnext⟩ | ⟨hk', rfl⟩
      · exact h.waits k f next hbelow hnext
      · rw [Array.size_push] at hk'
        rw [show k = callers.size by omega, Array.getElem?_push_size] at hbelow
        cases hbelow
        exact ⟨hbase, hsite⟩
    · have := (Array.getElem?_eq_some_iff.1 hnext).1
      rw [Array.size_push] at this
      omega

/-- The active call ends. -/
theorem leave (h : Calls L (callers.push frame)) (hactive : L.active = older.push a) :
    Calls L.leave callers := by
  have hleave : L.leave.active = older := by
    rw [Ledger.leave, hactive]
    simp
  have hold : ∀ k b : Nat, L.leave.active[k]? = some b → L.active[k]? = some b := by
    intro k b hb
    rw [hleave] at hb
    rw [hactive]
    exact getElem?_push_of_some hb _
  refine ⟨?_, fun b hb => ?_, fun j k b hj hk => ?_, fun k b f hb hf => ?_,
    fun f hf => h.outermost f (getElem?_push_of_some hf _),
    fun k f hf => h.inner k f (getElem?_push_of_some hf _), fun k f next hf hnext => ?_⟩
  · rw [hleave]
    exact h.size_older hactive
  · obtain ⟨k, hk⟩ := Array.mem_iff_getElem?.1 hb
    exact h.begun b (Array.mem_of_getElem? (hold k b hk))
  · exact h.distinct j k b (hold j b hj) (hold k b hk)
  · exact (h.activation k b f (hold k b hb) (getElem?_push_of_some hf _)).grow L.extends_leave
      fun _ _ hc => hc
  · exact h.waits k f next (getElem?_push_of_some hf _) (getElem?_push_of_some hnext _)

end Calls

end

end Ember
