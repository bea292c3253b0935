import Ember.Bytecode.Effect
import Ember.OrderedMap
import Ember.Value.Routine
import Ember.Verify.Error

/-! Checking code before it runs. All paths through a stretch of code are followed from its start,
with the height of the stack at each offset: the code is accepted if every instruction on them can
be decoded, has operands that fit the tables of its function and finds enough values on the stack,
if no path leaves the stretch, and if all paths agree on the heights. Functions that the code loads
are checked in turn. -/
namespace Ember
set_option autoImplicit false

/-! ## One instruction -/

/-- Whether the operands of an instruction fit the tables of its function. -/
def checkOperands (f : Routine Value) (ins : Instruction) : Except VerifyFault Unit :=
  let i := ins.operand 0
  match ins.op with
  | .loadConst =>
    if i < f.constants.size then .ok () else .error (.constantOutOfRange i)
  | .loadClosure =>
    match f.constants[i]? with
    | none => .error (.constantOutOfRange i)
    | some (.function g) =>
      if ins.operand 1 = g.freeVariables.size then .ok ()
      else .error (.cellCount g.name (ins.operand 1) g.freeVariables.size)
    | some _ => .error .closureOfNonFunction
  | .loadName | .storeName | .loadGlobal | .storeGlobal | .loadAttr | .storeAttr =>
    if i < f.names.size then .ok () else .error (.nameOutOfRange i)
  | .loadFast | .storeFast =>
    if i < f.localCount then .ok () else .error (.slotOutOfRange i)
  | .loadFree | .storeFree =>
    if i < f.freeVariables.size then .ok () else .error (.freeOutOfRange i)
  | .makeCell =>
    match ins.operand 1 with
    | 0 => if i < f.localCount then .ok () else .error (.cellOutOfRange i)
    | 1 => if i < f.freeVariables.size then .ok () else .error (.cellOutOfRange i)
    | source => .error (.invalidCellSource source)
  | .returnValue => if i ≤ 1 then .ok () else .error (.invalidReturnFlag i)
  | _ => .ok ()

/-- Frames, cells and returns belong to functions; names of the session and the end of a chunk
belong to the top level. -/
def checkPlace (kind : ScopeKind) (op : Opcode) : Except VerifyFault Unit :=
  match kind, op with
  | .topLevel, .loadFast | .topLevel, .storeFast | .topLevel, .loadFree | .topLevel, .storeFree
  | .topLevel, .loadGlobal | .topLevel, .storeGlobal | .topLevel, .makeCell
  | .topLevel, .returnValue => .error (.atTopLevel op)
  | .function, .loadName | .function, .storeName | .function, .halt => .error (.inFunction op)
  | _, _ => .ok ()

/-- What is known of one instruction: it is decoded, fits into the stretch of code and into its
function, and finds the values that it takes. -/
def inspect (f : Routine Value) (range : CodeRange) (pos height : Nat) :
    Except VerifyFault Instruction :=
  match decode f.code pos with
  | .error e => .error (.undecodable e)
  | .ok ins =>
    if range.stop < pos + ins.size then .error .runsPast
    else
      match checkOperands f ins with
      | .error fault => .error fault
      | .ok () =>
        match checkPlace f.scope.kind ins.op with
        | .error fault => .error fault
        | .ok () =>
          if height < ins.pops then .error (.underflow ins.op ins.pops height) else .ok ins

/-- Where an instruction may jump to, which has to be in the stretch of code. -/
def targets (range : CodeRange) (ins : Instruction) (pos : Nat) : Except VerifyFault (List Nat) :=
  if ins.op.isJump then
    match ins.target? pos with
    | some target => if range.contains target then .ok [target] else .error .targetOutside
    | none => .error .targetOutside
  else .ok []

/-- Where a run goes on: first the instruction that follows, then the target of a jump. -/
def successors (name : String) (range : CodeRange) (ins : Instruction) (pos : Nat) :
    Except VerifyError (List Nat) :=
  let next := pos + ins.size
  match targets range ins pos with
  | .error fault => .error ⟨name, pos, fault⟩
  | .ok targets =>
    if ins.fallsThrough then
      if next < range.stop then .ok (next :: targets) else .error ⟨name, next, .fallsOff⟩
    else .ok targets

/-! ## All paths -/

/-- The height of the stack at each offset that has been reached. -/
abbrev Heights : Type := Std.HashMap Nat Nat

/-- How many offsets of a stretch of code have not been reached. -/
def Heights.unreached (heights : Heights) (stop : Nat) : Nat :=
  ((List.range stop).filter fun pos => !heights.contains pos).length

theorem length_filter_lt {α : Type} {p q : α → Bool} {l : List α} {a : α} (ha : a ∈ l)
    (hp : p a = false) (hq : q a = true) (hpq : ∀ b, p b = true → q b = true) :
    (l.filter p).length < (l.filter q).length := by
  have hsub : ∀ l : List α, (l.filter p).length ≤ (l.filter q).length := by
    intro l
    induction l with
    | nil => simp
    | cons b l ih =>
      cases hpb : p b
      · cases hqb : q b <;> simp [hpb, hqb] <;> omega
      · simp [hpb, hpq b hpb, ih]
  induction l with
  | nil => cases ha
  | cons b l ih =>
    rcases List.mem_cons.1 ha with rfl | hb
    · have := hsub l
      simp [hp, hq]
      omega
    · have := ih hb
      cases hpb : p b
      · cases hqb : q b <;> simp [hpb, hqb] <;> omega
      · simp [hpb, hpq b hpb, this]

theorem Heights.unreached_insert_lt {heights : Heights} {pos height stop : Nat}
    (hpos : pos < stop) (hnew : heights[pos]? = none) :
    Heights.unreached (heights.insert pos height) stop < heights.unreached stop := by
  have hout : pos ∉ heights := by
    intro h
    rw [Std.HashMap.getElem?_eq_some_getElem h] at hnew
    cases hnew
  refine length_filter_lt (List.mem_range.2 hpos) (by simp) (by simpa using hout) ?_
  intro b hb
  simp only [Std.HashMap.contains_insert, Bool.not_or, Bool.and_eq_true] at hb
  exact hb.2

theorem inspect_fits {f : Routine Value} {range : CodeRange} {pos height : Nat}
    {ins : Instruction} (h : inspect f range pos height = .ok ins) :
    pos + ins.size ≤ range.stop := by
  unfold inspect at h
  split at h
  · cases h
  · split at h
    · cases h
    · rename_i hstop
      split at h
      · cases h
      · split at h
        · cases h
        · split at h
          · cases h
          · cases h
            omega

/-- What following all paths has found. -/
structure Exploration where
  heights : Heights
  /-- The constants that are functions and are loaded, in the order in which they are met. -/
  loaded : OrderedMap Nat Unit

/-- Follows the paths from the given offsets, at which the stack has the given heights; the last one
added comes first. -/
def explore (f : Routine Value) (range : CodeRange) (heights : Heights)
    (loaded : OrderedMap Nat Unit) :
    List (Nat × Nat) → Except VerifyError Exploration
  | [] => .ok ⟨heights, loaded⟩
  | (pos, height) :: pending =>
    match _hseen : heights[pos]? with
    | some seen =>
      if seen = height then explore f range heights loaded pending
      else .error ⟨f.name, pos, .heightMismatch height seen⟩
    | none =>
      match _hins : inspect f range pos height with
      | .error fault => .error ⟨f.name, pos, fault⟩
      | .ok ins =>
        match successors f.name range ins pos with
        | .error e => .error e
        | .ok next =>
          let loaded := match f.loaded? ins with
            | some i => loaded.insert i ()
            | none => loaded
          explore f range (heights.insert pos height) loaded
            (next.map (·, height - ins.pops + ins.pushes) ++ pending)
termination_by pending => (heights.unreached range.stop, pending.length)
decreasing_by
  · exact Prod.Lex.right _ (by simp)
  · have hfit := inspect_fits _hins
    have := ins.size_pos
    exact Prod.Lex.left _ _ (Heights.unreached_insert_lt (by omega) _hseen)

/-- The first offset that is reached and at which no instruction begins when the code is read from
front to back. -/
def misaligned? (code : Array UInt8) (heights : Heights) (stop pos : Nat) : Option Nat :=
  if pos < stop then
    match decode code pos with
    | .ok ins =>
      match (List.range' (pos + 1) (ins.size - 1)).find? heights.contains with
      | some inner => some inner
      | none => misaligned? code heights stop (pos + ins.size)
    | .error _ => (List.range' (pos + 1) (stop - (pos + 1))).find? heights.contains
  else none
termination_by stop - pos
decreasing_by have := ins.size_pos; omega

/-! ## Functions in functions -/

mutual

/-- Checks a stretch of the code of a function, and the functions that it loads. -/
def verifyCode (f : Routine Value) (range : CodeRange) : Except VerifyError Unit :=
  match explore f range ∅ .empty [(range.start, 0)] with
  | .error e => .error e
  | .ok found =>
    match misaligned? f.code found.heights range.stop range.start with
    | some pos => .error ⟨f.name, pos, .insideInstruction⟩
    | none => verifyLoaded f found.loaded.keys.toList
termination_by (sizeOf f, 1, 0)

/-- Checks the functions at the given places among the constants. -/
def verifyLoaded (f : Routine Value) : List Nat → Except VerifyError Unit
  | [] => .ok ()
  | i :: rest =>
    match _h : f.constants[i]? with
    | some (.function g) =>
      match verifyCode g g.range with
      | .error e => .error e
      | .ok () => verifyLoaded f rest
    | _ => verifyLoaded f rest
termination_by places => (sizeOf f, 0, places.length)
decreasing_by
  · exact Prod.Lex.left _ _ (Routine.sizeOf_lt_of_getElem? _h)
  · exact Prod.Lex.right _ (Prod.Lex.right _ (by simp))
  · exact Prod.Lex.right _ (Prod.Lex.right _ (by simp))

end

/-- Checks a chunk of the code of a session, which ends in `HALT`. -/
def verifyChunk (main : Routine Value) (range : CodeRange) : Except VerifyError Unit :=
  if main.code.size < range.stop || range.stop ≤ range.start then
    .error ⟨main.name, range.start, .rangeOutside⟩
  else if main.code[range.stop - 1]? = some (Opcode.byte .halt) then verifyCode main range
  else .error ⟨main.name, range.stop - 1, .noHalt⟩

end Ember
