import Ember.Proofs.Machine.Frames
import Ember.Proofs.Machine.Runs

/-! Machines that run the same code in different places. The outermost calls of two machines run
main functions whose code lies apart by a fixed distance; all other calls are of the same functions.
Such twins hold the same values, and whatever one of them does, the other does as well. -/
namespace Ember
set_option autoImplicit false

/-! ## Twins -/

/-- Two main functions, how much further on the code lies in the first one, and what the second
machine has printed ahead of the first. -/
structure Link where
  main : Routine Value
  main' : Routine Value
  shift : Nat
  printed : String
  name : main'.name = main.name

namespace Link

variable (k : Link)

/-- The functions of two calls at a depth. -/
def Code : Nat → Routine Value → Routine Value → Prop
  | 0, f, f' => f = k.main ∧ f' = k.main'
  | _ + 1, f, f' => f' = f

/-- The places that two calls at a depth have come to. -/
def Place : Nat → Nat → Nat → Prop
  | 0, pos, pos' => pos = pos' + k.shift
  | _ + 1, pos, pos' => pos' = pos

/-- The targets of two jumps of calls at a depth, which stand at the given offsets. -/
def Lands (depth offset offset' : Nat) : Option Nat → Option Nat → Prop
  | some target, some target' => k.Place depth target target'
  | none, none => offset' = offset
  | _, _ => False

end Link

/-- Two calls at a depth. The outermost ones have neither slots nor cells. -/
structure Frame.Twin (k : Link) (depth : Nat) (f f' : Frame) : Prop where
  function : k.Code depth f.function f'.function
  cells : f'.cells = f.cells
  base : f'.base = f.base
  locals : f'.locals = f.locals
  resume : ∀ d, depth = d + 1 → k.Place d f.resume f'.resume
  bottom : depth = 0 → f.cells = #[] ∧ f.locals = #[] ∧ f.base = 0

/-- The calls of two machines that have not returned. -/
inductive CallsTwin (k : Link) : Nat → Array Frame → Array Frame → Prop
  | outermost {f f' : Frame} (h : f.Twin k 0 f') : CallsTwin k 0 #[f] #[f']
  | inner {depth : Nat} {callers callers' : Array Frame} {f f' : Frame}
      (hcallers : CallsTwin k depth callers callers') (h : f.Twin k (depth + 1) f') :
      CallsTwin k (depth + 1) (callers.push f) (callers'.push f')

namespace CallsTwin

variable {k : Link} {depth : Nat} {frames frames' : Array Frame}

/-- The active calls, which may be changed. -/
theorem last (h : CallsTwin k depth frames frames') :
    ∃ (callers callers' : Array Frame) (f f' : Frame), frames = callers.push f ∧
      frames' = callers'.push f' ∧ f.Twin k depth f' ∧
      ∀ g g' : Frame, g.Twin k depth g' →
        CallsTwin k depth (callers.push g) (callers'.push g') := by
  cases h with
  | @outermost f f' h => exact ⟨#[], #[], f, f', rfl, rfl, h, fun _ _ => .outermost⟩
  | @inner _ callers callers' f f' hcallers h =>
    exact ⟨callers, callers', f, f', rfl, rfl, h, fun _ _ => .inner hcallers⟩

/-- The calls that wait for the active ones. -/
theorem callers (h : CallsTwin k (depth + 1) frames frames') :
    ∃ (callers callers' : Array Frame) (f f' : Frame), frames = callers.push f ∧
      frames' = callers'.push f' ∧ f.Twin k (depth + 1) f' ∧
      CallsTwin k depth callers callers' := by
  cases h with
  | @inner _ callers callers' f f' hcallers h =>
    exact ⟨callers, callers', f, f', rfl, rfl, h, hcallers⟩

/-- The outermost calls. -/
theorem bottom (h : CallsTwin k 0 frames frames') :
    ∃ f f' : Frame, frames = #[f] ∧ frames' = #[f'] ∧ f.Twin k 0 f' := by
  cases h with
  | @outermost f f' h => exact ⟨f, f', rfl, rfl, h⟩

theorem size (h : CallsTwin k depth frames frames') :
    frames.size = depth + 1 ∧ frames'.size = depth + 1 := by
  induction h with
  | outermost => exact ⟨rfl, rfl⟩
  | inner _ _ ih =>
    rw [Array.size_push, Array.size_push, ih.1, ih.2]
    exact ⟨rfl, rfl⟩

end CallsTwin

/-- Two machines whose active calls are at a depth. -/
structure Machine.Twin (k : Link) (depth : Nat) (a b : Machine) : Prop where
  stack : b.stack = a.stack
  globals : b.globals = a.globals
  heap : b.heap = a.heap
  world : b.world = a.world
  going : a.world.cancelled = false
  output : b.output = k.printed ++ a.output
  frames : CallsTwin k depth a.frames b.frames
  function : a.frames.back?.map Frame.function = some a.function
  function' : b.frames.back?.map Frame.function = some b.function
  place : k.Place depth a.ip b.ip

/-- Twins at any depth. -/
def Machine.Twins (k : Link) (a b : Machine) : Prop := ∃ depth, Twin k depth a b

theorem Frame.Twin.name {k : Link} {depth : Nat} {f f' : Frame} (h : f.Twin k depth f') :
    f'.function.name = f.function.name := by
  have hcode := h.function
  cases depth with
  | zero => rw [hcode.1, hcode.2, k.name]
  | succ depth => rw [show f'.function = f.function from hcode]

theorem Machine.Twin.code {k : Link} {depth : Nat} {a b : Machine} (h : Twin k depth a b) :
    k.Code depth a.function b.function := by
  obtain ⟨callers, callers', f, f', hframes, hframes', htwin, -⟩ := h.frames.last
  have hf := h.function
  have hf' := h.function'
  rw [hframes, Array.back?_push] at hf
  rw [hframes', Array.back?_push] at hf'
  rw [← Option.some.inj hf, ← Option.some.inj hf']
  exact htwin.function

/-! ## Actions -/

/-- Two actions on twins give the same value or the same fault, and leave twins. -/
def Action.Pair {α : Type} (k : Link) (R R' : Machine → Machine → Prop) (x y : Action α) : Prop :=
  ∀ a b, R a b → match x a, y b with
    | .ok v a', .ok w b' => w = v ∧ R' a' b'
    | .error fault a', .error fault' b' => fault' = fault ∧ Machine.Twins k a' b'
    | _, _ => False

namespace Action.Pair

variable {α β : Type} {k : Link} {depth : Nat} {R R' R'' : Machine → Machine → Prop}

theorem bind {x y : Action α} {f g : α → Action β} (h : Pair k R R' x y)
    (hrest : ∀ v, Pair k R' R'' (f v) (g v)) : Pair k R R'' (x >>= f) (y >>= g) := by
  intro a b hab
  have hxy := h a b hab
  show match EStateM.bind x f a, EStateM.bind y g b with
    | .ok v a', .ok w b' => w = v ∧ R'' a' b'
    | .error fault a', .error fault' b' => fault' = fault ∧ Machine.Twins k a' b'
    | _, _ => False
  unfold EStateM.bind
  cases hx : x a with
  | ok v a' =>
    cases hy : y b with
    | ok w b' =>
      rw [hx, hy] at hxy
      obtain ⟨rfl, hab'⟩ := hxy
      exact hrest w a' b' hab'
    | error fault b' =>
      rw [hx, hy] at hxy
      exact hxy.elim
  | error fault a' =>
    cases hy : y b with
    | ok w b' =>
      rw [hx, hy] at hxy
      exact hxy.elim
    | error fault' b' =>
      rw [hx, hy] at hxy
      exact hxy

theorem pure (v : α) : Pair k R R (pure v) (pure v) := fun _ _ h => ⟨rfl, h⟩

theorem throw (fault : Fault) :
    Pair k (Machine.Twin k depth) R (throw fault : Action α) (throw fault) :=
  fun _ _ h => ⟨rfl, depth, h⟩

theorem mono {x y : Action α} (h : Pair k R R' x y) (hR : ∀ a b, R' a b → R'' a b) :
    Pair k R R'' x y := by
  intro a b hab
  have hxy := h a b hab
  split
  · rename_i hx hy
    rw [hx, hy] at hxy
    exact ⟨hxy.1, hR _ _ hxy.2⟩
  · rename_i hx hy
    rw [hx, hy] at hxy
    exact hxy
  · rename_i hne hne'
    split at hxy
    · rename_i hx hy
      exact absurd hy (hne _ _ _ _ hx)
    · rename_i hx hy
      exact absurd hy (hne' _ _ _ _ hx)
    · exact hxy

/-! ## The stack and the heap -/

theorem push (v : Value) : Pair k (Machine.Twin k depth) (Machine.Twin k depth) (push v) (push v) :=
  fun _ _ h => ⟨rfl, { h with stack := congrArg (Array.push · v) h.stack }⟩

theorem pop : Pair k (Machine.Twin k depth) (Machine.Twin k depth) pop pop := by
  intro a b h
  unfold Action.pop
  rw [h.stack]
  cases a.stack.back? with
  | none => exact ⟨rfl, depth, h⟩
  | some v => exact ⟨rfl, { h with stack := rfl }⟩

theorem popMany (n : Nat) :
    Pair k (Machine.Twin k depth) (Machine.Twin k depth) (popMany n) (popMany n) := by
  intro a b h
  unfold Action.popMany
  rw [h.stack]
  dsimp only
  by_cases hsize : a.stack.size < n
  · rw [if_pos hsize, if_pos hsize]
    exact ⟨rfl, depth, h⟩
  · rw [if_neg hsize, if_neg hsize]
    exact ⟨rfl, { h with stack := rfl }⟩

theorem popTwo : Pair k (Machine.Twin k depth) (Machine.Twin k depth) popTwo popTwo :=
  .bind .pop fun _ => .bind .pop fun _ => .pure _

theorem onHeap (x : OnHeap Fault α) :
    Pair k (Machine.Twin k depth) (Machine.Twin k depth) (onHeap x) (onHeap x) := by
  intro a b h
  unfold Action.onHeap
  rw [h.heap]
  dsimp only
  cases x a.heap with
  | ok v heap => exact ⟨rfl, { h with heap := rfl }⟩
  | error fault heap => exact ⟨rfl, depth, { h with heap := rfl }⟩

theorem ask (f : Heap → Except Fault α) :
    Pair k (Machine.Twin k depth) (Machine.Twin k depth) (ask f) (ask f) := by
  intro a b h
  unfold Action.ask
  rw [h.heap]
  cases f a.heap with
  | ok v => exact ⟨rfl, h⟩
  | error fault => exact ⟨rfl, depth, h⟩

theorem print (v : Value) :
    Pair k (Machine.Twin k depth) (Machine.Twin k depth) (print v) (print v) := by
  intro a b h
  refine ⟨rfl, { h with output := ?_ }⟩
  rw [h.heap, h.output, String.append_assoc, String.append_assoc, String.append_assoc]

/-! ## Names and tables -/

theorem loadGlobal (name : String) :
    Pair k (Machine.Twin k depth) (Machine.Twin k depth) (loadGlobal name) (loadGlobal name) := by
  intro a b h
  unfold Action.loadGlobal
  rw [h.globals]
  cases a.globals.get? name with
  | none => exact ⟨rfl, depth, h⟩
  | some v => exact ⟨rfl, h⟩

theorem storeGlobal (name : String) (v : Value) : Pair k (Machine.Twin k depth)
    (Machine.Twin k depth) (storeGlobal name v) (storeGlobal name v) :=
  fun _ _ h => ⟨rfl, { h with globals := congrArg (Globals.set · name v) h.globals }⟩

theorem constant {i : Nat} (hi : ∀ f f', k.Code depth f f' → f'.constants[i]? = f.constants[i]?) :
    Pair k (Machine.Twin k depth) (Machine.Twin k depth) (constant i) (constant i) := by
  intro a b h
  unfold Action.constant
  rw [hi _ _ h.code]
  cases a.function.constants[i]? with
  | none => exact ⟨rfl, depth, h⟩
  | some v => exact ⟨rfl, h⟩

theorem name {i : Nat} (hi : ∀ f f', k.Code depth f f' → f'.names[i]? = f.names[i]?) :
    Pair k (Machine.Twin k depth) (Machine.Twin k depth) (name i) (name i) := by
  intro a b h
  unfold Action.name
  rw [hi _ _ h.code]
  cases a.function.names[i]? with
  | none => exact ⟨rfl, depth, h⟩
  | some v => exact ⟨rfl, h⟩

/-! ## Slots and cells -/

theorem readCell (c : CellRef) :
    Pair k (Machine.Twin k depth) (Machine.Twin k depth) (readCell c) (readCell c) :=
  fun _ _ h => ⟨congrArg (Heap.cell · c) h.heap, h⟩

theorem writeCell (c : CellRef) (v : Value) :
    Pair k (Machine.Twin k depth) (Machine.Twin k depth) (writeCell c v) (writeCell c v) :=
  fun _ _ h => ⟨rfl, { h with heap := congrArg (Heap.setCell · c v) h.heap }⟩

theorem slot (i : Nat) :
    Pair k (Machine.Twin k depth) (Machine.Twin k depth) (slot i) (slot i) := by
  intro a b h
  obtain ⟨callers, callers', f, f', hframes, hframes', htwin, -⟩ := h.frames.last
  unfold Action.slot
  rw [hframes, hframes', Array.back?_push, Array.back?_push]
  dsimp only
  rw [htwin.locals]
  cases f.locals[i]? with
  | none => exact ⟨rfl, depth, h⟩
  | some v => exact ⟨rfl, h⟩

theorem freeCell (i : Nat) :
    Pair k (Machine.Twin k depth) (Machine.Twin k depth) (freeCell i) (freeCell i) := by
  intro a b h
  obtain ⟨callers, callers', f, f', hframes, hframes', htwin, -⟩ := h.frames.last
  unfold Action.freeCell
  rw [hframes, hframes', Array.back?_push, Array.back?_push]
  dsimp only
  rw [htwin.cells, htwin.name]
  cases f.cells[i]? with
  | none => exact ⟨rfl, depth, h⟩
  | some c => exact ⟨rfl, h⟩

theorem setSlot (i : Nat) (v : Value) :
    Pair k (Machine.Twin k depth) (Machine.Twin k depth) (setSlot i v) (setSlot i v) := by
  intro a b h
  obtain ⟨callers, callers', f, f', hframes, hframes', htwin, hchange⟩ := h.frames.last
  have hset : (f.setLocal i v).Twin k depth (f'.setLocal i v) := by
    refine ⟨htwin.function, htwin.cells, htwin.base, ?_, htwin.resume, fun hdepth => ?_⟩
    · exact congrArg (Array.setIfInBounds · i v) htwin.locals
    · obtain ⟨hcells, hlocals, hbase⟩ := htwin.bottom hdepth
      refine ⟨hcells, ?_, hbase⟩
      show f.locals.setIfInBounds i v = #[]
      rw [hlocals]
      rfl
  have hf := h.function
  have hf' := h.function'
  rw [hframes, Array.back?_push] at hf
  rw [hframes', Array.back?_push] at hf'
  unfold Action.setSlot
  dsimp only
  rw [hframes, hframes', modify_last, modify_last]
  refine ⟨rfl, { h with frames := hchange _ _ hset, function := ?_, function' := ?_ }⟩
  · rw [Array.back?_push]
    exact hf
  · rw [Array.back?_push]
    exact hf'

theorem loadFast (i : Nat) :
    Pair k (Machine.Twin k depth) (Machine.Twin k depth) (loadFast i) (loadFast i) := by
  refine .bind (.slot i) fun v => ?_
  cases v with
  | cell c => exact .readCell c
  | _ => exact .pure _

theorem storeFast (i : Nat) (v : Value) :
    Pair k (Machine.Twin k depth) (Machine.Twin k depth) (storeFast i v) (storeFast i v) := by
  refine .bind (.slot i) fun w => ?_
  cases w with
  | cell c => exact .writeCell c v
  | _ => exact .setSlot i v

/-! ## Closures -/

theorem cellOfSlot (i : Nat) :
    Pair k (Machine.Twin k depth) (Machine.Twin k depth) (cellOfSlot i) (cellOfSlot i) := by
  refine .bind (.slot i) fun w => ?_
  cases w with
  | cell c => exact .pure c
  | _ => exact .bind (.onHeap _) fun c => .bind (.setSlot i _) fun _ => .pure c

theorem makeCell (i source : Nat) :
    Pair k (Machine.Twin k depth) (Machine.Twin k depth) (makeCell i source)
      (makeCell i source) := by
  unfold Action.makeCell
  split
  · exact .cellOfSlot i
  · exact .freeCell i
  · exact .throw _

theorem makeClosure {i : Nat} (count : Nat)
    (hi : ∀ f f', k.Code depth f f' → f'.constants[i]? = f.constants[i]?) :
    Pair k (Machine.Twin k depth) (Machine.Twin k depth) (makeClosure i count)
      (makeClosure i count) := by
  refine .bind (.constant hi) fun v => ?_
  cases v with
  | function f =>
    exact .bind (.popMany count) fun _ => .bind (.ask _) fun _ => .bind (.onHeap _) fun _ => .pure _
  | _ => exact .throw _

/-! ## Control -/

/-- Both machines jump to the same place, or fail to do so at the same place. -/
theorem jump {target target' : Option Nat} {offset offset' : Nat}
    (h : k.Lands depth offset offset' target target') :
    Pair k (Machine.Twin k depth) (Machine.Twin k depth) (jump target offset)
      (jump target' offset') := by
  intro a b hab
  unfold Action.jump
  cases target <;> cases target'
  · exact ⟨by rw [show offset' = offset from h], depth, hab⟩
  · exact h.elim
  · exact h.elim
  · exact ⟨rfl, { hab with place := h }⟩

theorem enter (s : Surroundings) (f : Routine Value) (cells : Array CellRef) (args : Array Value) :
    Pair k (Machine.Twin k depth) (Machine.Twins k) (enter s f cells args)
      (enter s f cells args) := by
  intro a b h
  obtain ⟨hsize, hsize'⟩ := h.frames.size
  unfold Action.enter
  rw [hsize, hsize', h.stack]
  by_cases harity : args.size ≠ f.arity
  · rw [if_pos harity, if_pos harity]
    exact ⟨rfl, depth, h⟩
  · rw [if_neg harity, if_neg harity]
    by_cases hdepth : s.settings.maxCallDepth ≤ depth + 1
    · rw [if_pos hdepth, if_pos hdepth]
      exact ⟨rfl, depth, h⟩
    · rw [if_neg hdepth, if_neg hdepth]
      refine ⟨rfl, depth + 1, { h with
        stack := rfl
        frames := .inner h.frames ⟨rfl, rfl, rfl, rfl, fun d hd => ?_, nofun⟩
        function := ?_, function' := ?_, place := rfl }⟩
      · cases hd
        exact h.place
      · rw [Array.back?_push]
        rfl
      · rw [Array.back?_push]
        rfl

theorem leave (v : Value) :
    Pair k (Machine.Twin k depth) (Machine.Twins k) (leave v) (leave v) := by
  intro a b h
  obtain ⟨hsize, hsize'⟩ := h.frames.size
  unfold Action.leave
  rw [hsize, hsize']
  cases depth with
  | zero => exact ⟨rfl, 0, h⟩
  | succ depth =>
    obtain ⟨callers, callers', f, f', hframes, hframes', htwin, hcallers⟩ := h.frames.callers
    obtain ⟨older, older', g, g', rfl, rfl, hcaller, -⟩ := hcallers.last
    rw [if_neg (by omega), if_neg (by omega), hframes, hframes', Array.back?_push, Array.back?_push]
    dsimp only
    rw [Array.pop_push, Array.pop_push, Array.back?_push, Array.back?_push]
    refine ⟨rfl, depth, { h with
      stack := ?_
      frames := hcallers
      function := ?_, function' := ?_, place := htwin.resume depth rfl }⟩
    · rw [h.stack, htwin.base]
    · rw [Array.back?_push]
      rfl
    · rw [Array.back?_push]
      rfl

theorem callBuiltin {s : Surroundings} (hhost : PatientHost s.host) (b : Builtin)
    (args : Array Value) : Pair k (Machine.Twin k depth) (Machine.Twin k depth)
      (callBuiltin s b args) (callBuiltin s b args) := by
  intro m m' h
  unfold Action.callBuiltin
  rw [h.heap, h.world, h.stack]
  dsimp only
  have hgoing := hhost.call b args ⟨m.heap, m.world⟩
  rcases hcall : b.call s.host args ⟨m.heap, m.world⟩ with ⟨v, ⟨heap, world⟩⟩
  rw [hcall] at hgoing
  have hstill : world.cancelled = false := hgoing.trans h.going
  cases v with
  | error kind message =>
    exact ⟨rfl, depth, { h with stack := rfl, heap := rfl, world := rfl, going := hstill }⟩
  | _ => exact ⟨rfl, { h with stack := rfl, heap := rfl, world := rfl, going := hstill }⟩

theorem call {s : Surroundings} (hhost : PatientHost s.host) (count : Nat) :
    Pair k (Machine.Twin k depth) (Machine.Twins k) (call s count) (call s count) := by
  refine .bind (.popMany _) fun values => ?_
  dsimp only
  cases values.getD 0 .nil with
  | function f => exact .enter s f #[] _
  | closure id f cells => exact .enter s f cells _
  | builtin id b => exact (callBuiltin hhost b _).mono fun _ _ h => ⟨depth, h⟩
  | _ => exact .throw _

end Action.Pair

/-! ## Instructions -/

/-- The instruction reads the constant that its first operand counts out. -/
def Opcode.readsConstant : Opcode → Bool
  | .loadConst | .loadClosure => true
  | _ => false

/-- The instruction reads the name that its first operand counts out. -/
def Opcode.readsName : Opcode → Bool
  | .loadGlobal | .storeGlobal | .loadName | .storeName | .loadAttr | .storeAttr => true
  | _ => false

theorem exists_constant {f : Routine Value} {ins : Instruction} (h : checkOperands f ins = .ok ())
    (hreads : ins.op.readsConstant = true) : ∃ v, f.constants[ins.operand 0]? = some v := by
  unfold checkOperands at h
  cases hop : ins.op with
  | loadConst =>
    rw [hop] at h
    exact ⟨_, Array.getElem?_eq_getElem (lt_of_check h)⟩
  | loadClosure =>
    rw [hop] at h
    dsimp only at h
    cases hg : f.constants[ins.operand 0]? with
    | none =>
      rw [hg] at h
      cases h
    | some v => exact ⟨v, rfl⟩
  | _ =>
    rw [hop] at hreads
    cases hreads

theorem exists_name {f : Routine Value} {ins : Instruction} (h : checkOperands f ins = .ok ())
    (hreads : ins.op.readsName = true) : ∃ n, f.names[ins.operand 0]? = some n := by
  unfold checkOperands at h
  cases hop : ins.op with
  | loadGlobal | storeGlobal | loadName | storeName | loadAttr | storeAttr =>
    rw [hop] at h
    exact ⟨_, Array.getElem?_eq_getElem (lt_of_check h)⟩
  | _ =>
    rw [hop] at hreads
    cases hreads

/-- An instruction finds the same in the functions of two calls. -/
structure Link.Shares (k : Link) (depth : Nat) (ins : Instruction) (offset offset' : Nat) :
    Prop where
  operator : ins.hasOperator = true
  constant : ins.op.readsConstant = true → ∀ f f', k.Code depth f f' →
    f'.constants[ins.operand 0]? = f.constants[ins.operand 0]?
  name : ins.op.readsName = true → ∀ f f', k.Code depth f f' →
    f'.names[ins.operand 0]? = f.names[ins.operand 0]?
  lands : ins.op.isJump = true →
    k.Lands depth offset offset' (ins.target? offset) (ins.target? offset')

namespace Action.Pair

variable {k : Link} {depth : Nat} {ins : Instruction} {offset offset' : Nat} {s : Surroundings}

theorem jumpIf (h : k.Shares depth ins offset offset') (hjump : ins.op.isJump = true)
    (expected : Bool) : Pair k (Machine.Twin k depth) (Machine.Twin k depth)
      (jumpIf expected ins offset) (jumpIf expected ins offset') := by
  refine .bind .pop fun v => .bind (.ask _) fun holds => ?_
  split
  · exact .jump (h.lands hjump)
  · exact .pure ()

/-- Instructions other than calls and returns. -/
theorem execute_here (h : k.Shares depth ins offset offset') (hcall : ins.op ≠ .call)
    (hreturn : ins.op ≠ .returnValue) : Pair k (Machine.Twin k depth) (Machine.Twin k depth)
      (execute s offset ins) (execute s offset' ins) := by
  obtain ⟨op, operands⟩ := ins
  cases op with
  | nop | halt => exact .pure ()
  | popTop => exact .bind .pop fun _ => .pure ()
  | print => exact .bind .pop fun v => .print v
  | pushNil | pushTrue | pushFalse => exact .push _
  | loadConst => exact .bind (.constant (h.constant rfl)) fun v => .push v
  | loadFast => exact .bind (.loadFast _) fun v => .push v
  | storeFast => exact .bind .pop fun v => .storeFast _ v
  | loadGlobal | loadName =>
    exact .bind (.name (h.name rfl)) fun n => .bind (.loadGlobal n) fun v => .push v
  | storeGlobal | storeName =>
    exact .bind (.name (h.name rfl)) fun n => .bind .pop fun v => .storeGlobal n v
  | loadFree => exact .bind (.freeCell _) fun c => .bind (.readCell c) fun v => .push v
  | storeFree => exact .bind .pop fun v => .bind (.freeCell _) fun c => .writeCell c v
  | makeCell => exact .bind (.makeCell _ _) fun c => .push _
  | loadClosure => exact .bind (.makeClosure _ (h.constant rfl)) fun v => .push v
  | buildList => exact .bind (.popMany _) fun _ => .bind (.onHeap _) fun v => .push v
  | buildMap | buildSet =>
    exact .bind (.popMany _) fun _ => .bind (.ask _) fun _ => .bind (.onHeap _) fun v => .push v
  | binarySubscr => exact .bind .popTwo fun _ => .bind (.ask _) fun v => .push v
  | storeSubscr => exact .bind .popTwo fun _ => .bind .pop fun _ => .onHeap _
  | deleteSubscr => exact .bind .popTwo fun _ => .onHeap _
  | loadAttr =>
    exact .bind (.name (h.name rfl)) fun _ => .bind .pop fun _ => .bind (.ask _) fun v => .push v
  | storeAttr =>
    exact .bind (.name (h.name rfl)) fun _ => .bind .pop fun _ => .bind .pop fun _ => .onHeap _
  | binaryOp =>
    obtain ⟨op, hop⟩ := Option.isSome_iff_exists.1 h.operator
    unfold execute
    dsimp only
    rw [hop]
    exact .bind .popTwo fun _ => .bind (.onHeap _) fun v => .push v
  | compareOp =>
    obtain ⟨op, hop⟩ := Option.isSome_iff_exists.1 h.operator
    unfold execute
    dsimp only
    rw [hop]
    exact .bind .popTwo fun _ => .bind (.ask _) fun v => .push v
  | unaryNegative | unaryPositive | unaryInvert =>
    exact .bind .pop fun _ => .bind (.ask _) fun v => .push v
  | unaryNot => exact .bind .pop fun _ => .bind (.ask _) fun _ => .push _
  | jumpForward | jumpBackward => exact .jump (h.lands rfl)
  | popJumpForwardIfTrue | popJumpBackwardIfTrue => exact .jumpIf h rfl true
  | popJumpForwardIfFalse | popJumpBackwardIfFalse => exact .jumpIf h rfl false
  | call => exact absurd rfl hcall
  | returnValue => exact absurd rfl hreturn

theorem execute (hhost : PatientHost s.host) (h : k.Shares depth ins offset offset') :
    Pair k (Machine.Twin k depth) (Machine.Twins k) (execute s offset ins)
      (execute s offset' ins) := by
  by_cases hcall : ins.op = .call
  · unfold Action.execute
    rw [hcall]
    exact .call hhost _
  · by_cases hreturn : ins.op = .returnValue
    · unfold Action.execute
      rw [hreturn]
      dsimp only
      split
      · exact .bind .pop fun v => .leave v
      · exact .leave .nil
    · exact (execute_here h hcall hreturn).mono fun _ _ h => ⟨depth, h⟩

end Action.Pair

/-! ## Steps -/

/-- The main functions have the same instruction at the two places, which finds the same in both. -/
def Link.Meets (k : Link) (pos pos' : Nat) : Prop :=
  ∃ ins, decode k.main.code pos = .ok ins ∧ decode k.main'.code pos' = .ok ins ∧
    k.Shares 0 ins pos pos'

section
variable {k : Link} {depth : Nat} {a b : Machine} {s : Surroundings}

theorem Link.Place.add {pos pos' : Nat} (h : k.Place depth pos pos') (n : Nat) :
    k.Place depth (pos + n) (pos' + n) := by
  cases depth with
  | zero =>
    show pos + n = pos' + n + k.shift
    rw [show pos = pos' + k.shift from h]
    omega
  | succ depth => exact congrArg (· + n) h

/-- Inside of functions both machines are at the same place of the same code. -/
theorem Link.shares_inner {code : Array UInt8} {pos : Nat} {ins : Instruction}
    (h : decode code pos = .ok ins) : k.Shares (depth + 1) ins pos pos := by
  refine ⟨(Instruction.decode_eq_ok h).2.2.2, fun _ f f' hcode => ?_, fun _ f f' hcode => ?_,
    fun _ => ?_⟩
  · rw [show f' = f from hcode]
  · rw [show f' = f from hcode]
  · cases ins.target? pos <;> rfl

/-- Twins read the same instruction. -/
theorem Machine.Twin.decode_eq (h : Twin k depth a b) (hmeets : depth = 0 → k.Meets a.ip b.ip) :
    decode b.function.code b.ip = decode a.function.code a.ip ∧
      ∀ ins, decode a.function.code a.ip = .ok ins → k.Shares depth ins a.ip b.ip := by
  have hcode := h.code
  have hplace := h.place
  cases depth with
  | zero =>
    obtain ⟨ins, hdecoded, hdecoded', hshares⟩ := hmeets rfl
    rw [hcode.1, hcode.2, hdecoded, hdecoded']
    refine ⟨rfl, fun ins' hins => ?_⟩
    cases hins
    exact hshares
  | succ depth =>
    rw [show b.function = a.function from hcode, show b.ip = a.ip from hplace]
    exact ⟨rfl, fun ins hins => Link.shares_inner hins⟩

/-- One step of twins. -/
theorem Machine.Twin.step (hhost : PatientHost s.host) (hsteps : s.settings.maxSteps = none)
    (h : Twin k depth a b) (hmeets : depth = 0 → k.Meets a.ip b.ip) :
    match Action.step s a, Action.step s b with
    | .ok halted a', .ok halted' b' => halted' = halted ∧ Twins k a' b'
    | .error fault a', .error fault' b' => fault' = fault ∧ Twins k a' b'
    | _, _ => False := by
  obtain ⟨hdecode, hshares⟩ := h.decode_eq hmeets
  rw [Action.step_eq hsteps a, Action.step_eq hsteps b, hdecode, congrArg Array.size h.stack]
  by_cases hsize : s.settings.maxStackSize < a.stack.size
  · rw [if_pos hsize, if_pos hsize]
    exact ⟨rfl, depth, { h with }⟩
  · rw [if_neg hsize, if_neg hsize]
    cases hins : decode a.function.code a.ip with
    | error e => exact ⟨rfl, depth, { h with }⟩
    | ok ins =>
      have hnext : Twin k depth { a with steps := a.steps + 1, ip := a.ip + ins.size }
          { b with steps := b.steps + 1, ip := b.ip + ins.size } :=
        { h with place := h.place.add ins.size }
      dsimp only
      by_cases hhalt : ins.op = .halt
      · rw [if_pos hhalt, if_pos hhalt]
        exact ⟨rfl, depth, hnext⟩
      · rw [if_neg hhalt, if_neg hhalt]
        have hpair := Action.Pair.execute hhost (hshares ins hins) _ _ hnext
        split at hpair
        · rename_i hx hy
          rw [hx, hy]
          exact ⟨rfl, hpair.2⟩
        · rename_i hx hy
          rw [hx, hy]
          exact hpair
        · exact hpair.elim

/-- Twins have the same calls. -/
theorem CallsTwin.names {frames frames' : Array Frame} (h : CallsTwin k depth frames frames') :
    frames'.toList.map (fun f => f.function.name) = frames.toList.map fun f => f.function.name := by
  induction h with
  | outermost h => rw [List.map_singleton, List.map_singleton, h.name]
  | inner _ h ih => rw [Array.toList_push, Array.toList_push, List.map_append, List.map_append, ih,
      List.map_singleton, List.map_singleton, h.name]

theorem Machine.Twins.callStack (h : Twins k a b) : b.callStack = a.callStack := by
  obtain ⟨depth, h⟩ := h
  unfold Machine.callStack
  rw [List.map_reverse, List.map_reverse, h.frames.names]

/-- Two runs have come to the same. -/
def Outcome.Twin (k : Link) : Outcome → Outcome → Prop
  | .halted a, .halted b => Machine.Twins k a b
  | .failed failure a, .failed failure' b => failure' = failure ∧ Machine.Twins k a b
  | .running a, .running b => Machine.Twins k a b
  | _, _ => False

end

end Ember
