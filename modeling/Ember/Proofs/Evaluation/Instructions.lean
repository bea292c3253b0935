import Ember.Proofs.Compile.Programs
import Ember.Proofs.Evaluation.Plays

/-! Single instructions as evaluations. Each takes values off the stack, does with them what its
construct does, and may push what comes out. -/
namespace Ember
set_option autoImplicit false

/-! ## Actions that mimic evaluations -/

def Machine.withScene (m : Machine) (σ : Scene) : Machine :=
  { m with globals := σ.globals, heap := σ.heap, world := σ.world, output := σ.output }

/-- The action changes the scene as the evaluation does, and nothing else. -/
def Mimics {α : Type} (act : Action α) (x : Eval α) : Prop :=
  ∀ m : Machine, match x m.scene with
    | .ok a σ => act m = .ok a (m.withScene σ)
    | .error (.fault f) σ => act m = .error f (m.withScene σ)
    | .error .beyond _ => True
    | .error .outOfFuel _ => False

section
variable {α β : Type}

theorem mimics_pure (a : α) : Mimics (pure a) (pure a) := fun _ => rfl

theorem Mimics.bind {act : Action α} {x : Eval α} {k : α → Action β} {f : α → Eval β}
    (hx : Mimics act x) (hf : ∀ a, Mimics (k a) (f a)) : Mimics (act >>= k) (x >>= f) := by
  intro m
  have h := hx m
  show match EStateM.bind x f m.scene with
    | .ok a σ => EStateM.bind act k m = .ok a (m.withScene σ)
    | .error (.fault f) σ => EStateM.bind act k m = .error f (m.withScene σ)
    | .error .beyond _ => True
    | .error .outOfFuel _ => False
  unfold EStateM.bind
  cases hr : x m.scene with
  | ok a σ =>
    rw [hr] at h
    rw [h]
    exact hf a (m.withScene σ)
  | error stop σ =>
    rw [hr] at h
    cases stop with
    | fault e => rw [h]
    | beyond => trivial
    | outOfFuel => exact h

theorem mimics_ask (f : Heap → Except Fault α) : Mimics (Action.ask f) (Eval.ask f) := by
  intro m
  unfold Eval.ask Action.ask
  rw [show m.scene.heap = m.heap from rfl]
  cases f m.heap with
  | ok a => rfl
  | error e => rfl

theorem mimics_onHeap (x : OnHeap Fault α) : Mimics (Action.onHeap x) (Eval.onHeap x) := by
  intro m
  unfold Eval.onHeap Action.onHeap
  rw [show m.scene.heap = m.heap from rfl]
  dsimp only
  cases x m.heap with
  | ok a h => rfl
  | error e h => rfl

theorem mimics_load (name : String) : Mimics (Action.loadGlobal name) (Eval.load name) := by
  intro m
  unfold Eval.load Action.loadGlobal
  rw [show m.scene.globals = m.globals from rfl]
  cases m.globals.get? name with
  | some v => rfl
  | none => rfl

theorem mimics_store (name : String) (v : Value) :
    Mimics (Action.storeGlobal name v) (Eval.store name v) := fun _ => rfl

theorem mimics_print (v : Value) : Mimics (Action.print v) (Eval.print v) := fun _ => rfl

end

/-! ## Instructions that take values and mimic an evaluation -/

theorem Action.Ends.named {m : Machine} {Q : String → Machine → Prop} {E : Fault → Machine → Prop}
    {i : Nat} {n : String} (hi : m.function.names[i]? = some n) (h : Q n m) :
    Ends (Action.name i) m Q E := by
  unfold Ends Action.name
  rw [hi]
  exact h

theorem Mimics.ends {α : Type} {act : Action α} {x : Eval α} {m : Machine}
    {Q : α → Machine → Prop} {E : Fault → Machine → Prop} (hx : Mimics act x)
    (hbeyond : ∀ σ, x m.scene ≠ .error .beyond σ)
    (hQ : ∀ a σ, x m.scene = .ok a σ → Q a (m.withScene σ))
    (hE : ∀ f σ, x m.scene = .error (.fault f) σ → E f (m.withScene σ)) :
    Action.Ends act m Q E := by
  have h := hx m
  unfold Action.Ends
  cases hr : x m.scene with
  | ok a σ =>
    rw [hr] at h
    rw [h]
    exact hQ a σ hr
  | error stop σ =>
    rw [hr] at h
    cases stop with
    | fault f =>
      rw [h]
      exact hE f σ hr
    | beyond => exact absurd hr (hbeyond σ)
    | outOfFuel => exact h.elim

/-- On a full stack the instruction does what the action does on the rest of it. -/
def Amounts (su : Surroundings) (main : Routine Value) (pos : Nat) (ins : Instruction)
    (full st : Array Value) (act : Action Unit) : Prop :=
  ∀ (m : Machine) (Q : Unit → Machine → Prop) (E : Fault → Machine → Prop),
    m.At main (pos + ins.size) full → Action.Ends act { m with stack := st } Q E →
      Action.Ends (Action.execute su pos ins) m Q E

section
variable {su : Surroundings} {main : Routine Value} {fuel pos : Nat} {st full : Array Value}
  {ins : Instruction}

/-- The value that comes out is pushed. -/
theorem Plays.pushing {act : Action Value} {x : Eval Value} (hsteps : su.settings.maxSteps = none)
    (hdecoded : decode main.code pos = .ok ins) (hhalt : ins.op ≠ .halt) (hx : Mimics act x)
    (hamounts : Amounts su main pos ins full st (act >>= Action.push)) :
    Plays su main fuel x pos full (Pushing (pos + ins.size) st) := by
  refine (AtOnce.intro hsteps hdecoded hhalt fun m hm hbeyond => hamounts m _ _ hm
    (.bind (hx.ends hbeyond (fun v σ hr => ?_) fun f σ hr => ⟨hr, hm.calls⟩))).plays
  exact ⟨v, hr, ⟨hm.ip, rfl⟩, hm.function, hm.calls⟩

/-- Nothing is pushed. -/
theorem Plays.leaving {act : Action Unit} {x : Eval Unit} (hsteps : su.settings.maxSteps = none)
    (hdecoded : decode main.code pos = .ok ins) (hhalt : ins.op ≠ .halt) (hx : Mimics act x)
    (hamounts : Amounts su main pos ins full st act) :
    Plays su main fuel x pos full (Leaving (pos + ins.size) st) := by
  refine (AtOnce.intro hsteps hdecoded hhalt fun m hm hbeyond => hamounts m _ _ hm
    (hx.ends hbeyond (fun u σ hr => ?_) fun f σ hr => ⟨hr, hm.calls⟩)).plays
  exact ⟨u, hr, ⟨hm.ip, rfl⟩, hm.function, hm.calls⟩

variable (hsteps : su.settings.maxSteps = none)
include hsteps

/-! ## Constants and names -/

theorem Plays.literal {op : Opcode} {v : Value} (hdecoded : decode main.code pos = .ok ⟨op, []⟩)
    (hexecute : Action.execute su pos ⟨op, []⟩ = Action.push v) (hhalt : op ≠ .halt) :
    Plays su main fuel (pure v) pos st (Pushing (pos + Instruction.size ⟨op, []⟩) st) := by
  refine .pushing hsteps hdecoded hhalt (mimics_pure v) fun m Q E hm h => ?_
  rw [hexecute]
  rw [← hm.stack] at h
  exact h

theorem Plays.loadConst {i : Nat} {v : Value} (hv : main.constants[i]? = some v)
    (hdecoded : decode main.code pos = .ok ⟨.loadConst, [i]⟩) :
    Plays su main fuel (pure v) pos st (Pushing (pos + 3) st) := by
  refine .pushing hsteps hdecoded nofun (mimics_pure v) fun m Q E hm h => ?_
  refine .bind (.constant (by rw [hm.function]; exact hv) ?_)
  rw [← hm.stack] at h
  exact h

theorem Plays.loadName {i : Nat} {name : String} (hname : main.names[i]? = some name)
    (hdecoded : decode main.code pos = .ok ⟨.loadName, [i]⟩) :
    Plays su main fuel (Eval.load name) pos st (Pushing (pos + 3) st) := by
  refine .pushing hsteps hdecoded nofun (mimics_load name) fun m Q E hm h => ?_
  refine .bind (.named (by rw [hm.function]; exact hname) ?_)
  rw [← hm.stack] at h
  exact h

theorem Plays.storeName {i : Nat} {name : String} {v : Value} (hname : main.names[i]? = some name)
    (hdecoded : decode main.code pos = .ok ⟨.storeName, [i]⟩) :
    Plays su main fuel (Eval.store name v) pos (st.push v) (Leaving (pos + 3) st) :=
  .leaving hsteps hdecoded nofun (mimics_store name v) fun _ _ _ hm h =>
    .bind (.named (by rw [hm.function]; exact hname) (.bind (.pop hm.stack h)))

/-! ## One, two or three values -/

theorem Plays.popTop {v : Value} (hdecoded : decode main.code pos = .ok ⟨.popTop, []⟩) :
    Plays su main fuel (pure ()) pos (st.push v) (Leaving (pos + 1) st) :=
  .leaving hsteps hdecoded nofun (mimics_pure ()) fun _ _ _ hm h => .bind (.pop hm.stack h)

theorem Plays.print {v : Value} (hdecoded : decode main.code pos = .ok ⟨.print, []⟩) :
    Plays su main fuel (Eval.print v) pos (st.push v) (Leaving (pos + 1) st) :=
  .leaving hsteps hdecoded nofun (mimics_print v) fun _ _ _ hm h => .bind (.pop hm.stack h)

theorem Plays.unary {op : UnaryOperator} {v : Value}
    (hdecoded : decode main.code pos = .ok ⟨op.opcode, []⟩) :
    Plays su main fuel (op.apply v) pos (st.push v) (Pushing (pos + 1) st) := by
  cases op with
  | negate =>
    exact .pushing hsteps hdecoded nofun (mimics_ask _) fun _ _ _ hm h => .bind (.pop hm.stack h)
  | plus =>
    exact .pushing hsteps hdecoded nofun (mimics_ask _) fun _ _ _ hm h => .bind (.pop hm.stack h)
  | invert =>
    exact .pushing hsteps hdecoded nofun (mimics_ask _) fun _ _ _ hm h => .bind (.pop hm.stack h)
  | not =>
    refine .pushing hsteps hdecoded nofun ((mimics_ask _).bind fun _ => mimics_pure _)
      fun _ _ _ hm h => .bind (.pop hm.stack ?_)
    rw [bind_assoc] at h
    exact h

theorem Plays.operation {op : Operation} {v w : Value}
    (hdecoded : decode main.code pos = .ok op.instruction) :
    Plays su main fuel (op.apply v w) pos ((st.push v).push w) (Pushing (pos + 2) st) := by
  cases op with
  | arithmetic op =>
    refine .pushing hsteps hdecoded nofun (mimics_onHeap _) fun m Q E hm h => ?_
    have hselector : BinaryOperator.ofSelector? (Instruction.operand ⟨.binaryOp, [op.selector]⟩ 0) =
        some op := BinaryOperator.ofSelector?_selector op
    show Action.Ends (Action.execute su pos ⟨.binaryOp, [op.selector]⟩) m Q E
    unfold Action.execute
    dsimp only
    rw [hselector]
    exact .bind (.popTwo hm.stack h)
  | comparison op =>
    refine .pushing hsteps hdecoded nofun (mimics_ask fun h => Ember.comparison h op v w)
      fun m Q E hm h => ?_
    have hselector : Comparison.ofSelector? (Instruction.operand ⟨.compareOp, [op.selector]⟩ 0) =
        some op := Comparison.ofSelector?_selector op
    show Action.Ends (Action.execute su pos ⟨.compareOp, [op.selector]⟩) m Q E
    unfold Action.execute
    dsimp only
    rw [hselector]
    exact .bind (.popTwo hm.stack h)

theorem Plays.subscript {container key : Value}
    (hdecoded : decode main.code pos = .ok ⟨.binarySubscr, []⟩) :
    Plays su main fuel (Eval.ask fun h => getItem h container key) pos
      ((st.push container).push key) (Pushing (pos + 1) st) :=
  .pushing hsteps hdecoded nofun (mimics_ask _) fun _ _ _ hm h => .bind (.popTwo hm.stack h)

theorem Plays.storeSubscript {container key v : Value}
    (hdecoded : decode main.code pos = .ok ⟨.storeSubscr, []⟩) :
    Plays su main fuel (Eval.onHeap (setItem container key v)) pos
      (((st.push v).push container).push key) (Leaving (pos + 1) st) :=
  .leaving hsteps hdecoded nofun (mimics_onHeap _) fun _ _ _ hm h =>
    .bind (.popTwo hm.stack (.bind (.pop rfl h)))

theorem Plays.deleteSubscript {container key : Value}
    (hdecoded : decode main.code pos = .ok ⟨.deleteSubscr, []⟩) :
    Plays su main fuel (Eval.onHeap (deleteItem container key)) pos
      ((st.push container).push key) (Leaving (pos + 1) st) :=
  .leaving hsteps hdecoded nofun (mimics_onHeap _) fun _ _ _ hm h => .bind (.popTwo hm.stack h)

theorem Plays.attribute {i : Nat} {name : String} {object : Value}
    (hname : main.names[i]? = some name)
    (hdecoded : decode main.code pos = .ok ⟨.loadAttr, [i]⟩) :
    Plays su main fuel (Eval.ask fun h => getAttribute h object name) pos (st.push object)
      (Pushing (pos + 3) st) :=
  .pushing hsteps hdecoded nofun (mimics_ask _) fun _ _ _ hm h =>
    .bind (.named (by rw [hm.function]; exact hname) (.bind (.pop hm.stack h)))

theorem Plays.storeAttribute {i : Nat} {name : String} {object v : Value}
    (hname : main.names[i]? = some name)
    (hdecoded : decode main.code pos = .ok ⟨.storeAttr, [i]⟩) :
    Plays su main fuel (Eval.onHeap (setAttribute object name v)) pos ((st.push v).push object)
      (Leaving (pos + 3) st) :=
  .leaving hsteps hdecoded nofun (mimics_onHeap _) fun _ _ _ hm h =>
    .bind (.named (by rw [hm.function]; exact hname)
      (.bind (.pop hm.stack (.bind (.pop rfl h)))))

/-! ## Many values -/

omit hsteps in
theorem membersOf_eq (values : List Value) (found : OrderedMap Key Unit) :
    Action.membersOf values found =
      values.foldlM (fun found v => do return found.insert (← keyOf v) ()) found := by
  induction values generalizing found with
  | nil => rfl
  | cons v rest ih =>
    rw [Action.membersOf, List.foldlM_cons]
    cases keyOf v with
    | ok key => exact ih _
    | error e => rfl

/-- Keys and values in turn. -/
def inTurn (pairs : List (Value × Value)) : List Value := pairs.flatMap fun e => [e.1, e.2]

omit hsteps in
theorem entriesOf_eq (pairs : List (Value × Value)) (found : OrderedMap Key Value) :
    Action.entriesOf (inTurn pairs) found =
      pairs.foldlM (fun found e => do return found.insert (← keyOf e.1) e.2) found := by
  induction pairs generalizing found with
  | nil => rfl
  | cons e rest ih =>
    show Action.entriesOf (e.1 :: e.2 :: inTurn rest) found = _
    rw [Action.entriesOf, List.foldlM_cons]
    cases keyOf e.1 with
    | ok key => exact ih _
    | error e => rfl

omit hsteps in
theorem length_inTurn (pairs : List (Value × Value)) :
    (inTurn pairs).length = 2 * pairs.length := by
  induction pairs with
  | nil => rfl
  | cons e rest ih =>
    show (inTurn rest).length + 1 + 1 = 2 * (rest.length + 1)
    omega

theorem Plays.buildList {items : List Value}
    (hdecoded : decode main.code pos = .ok ⟨.buildList, [items.length]⟩) :
    Plays su main fuel (Eval.onHeap (OnHeap.newList items.toArray)) pos (st ++ items.toArray)
      (Pushing (pos + 3) st) :=
  .pushing hsteps hdecoded nofun (mimics_onHeap _) fun _ _ _ hm h =>
    .bind (.popMany hm.stack rfl h)

theorem Plays.buildSet {items : List Value}
    (hdecoded : decode main.code pos = .ok ⟨.buildSet, [items.length]⟩) :
    Plays su main fuel (do Eval.onHeap (OnHeap.newSet (← Eval.ask fun _ => Eval.setOf items))) pos
      (st ++ items.toArray) (Pushing (pos + 3) st) := by
  refine .pushing hsteps hdecoded nofun ((mimics_ask _).bind fun _ => mimics_onHeap _)
    fun m Q E hm h => .bind (.popMany hm.stack rfl ?_)
  rw [bind_assoc] at h
  rw [membersOf_eq]
  exact h

theorem Plays.buildMap {pairs : List (Value × Value)}
    (hdecoded : decode main.code pos = .ok ⟨.buildMap, [pairs.length]⟩) :
    Plays su main fuel (do Eval.onHeap (OnHeap.newMap (← Eval.ask fun _ => Eval.mapOf pairs))) pos
      (st ++ (inTurn pairs).toArray) (Pushing (pos + 3) st) := by
  refine .pushing hsteps hdecoded nofun ((mimics_ask _).bind fun _ => mimics_onHeap _)
    fun m Q E hm h => .bind (.popMany hm.stack (length_inTurn pairs) ?_)
  rw [bind_assoc] at h
  rw [entriesOf_eq]
  exact h

omit hsteps in
/-- A builtin that returns an error raises it. -/
theorem Eval.call_builtin (host : Array HostFunction) (id : Nat) (b : Builtin) (args : Array Value)
    (σ : Scene) : Eval.call host (.builtin id b) args σ =
      match b.call host args ⟨σ.heap, σ.world⟩ with
      | (.error kind message, ⟨heap, world⟩) =>
        .error (.fault (.raised kind message)) { σ with heap, world }
      | (v, ⟨heap, world⟩) => .ok v { σ with heap, world } := rfl

/-- The callee lies below its arguments. -/
theorem Plays.call {callee : Value} {args : List Value}
    (hdecoded : decode main.code pos = .ok ⟨.call, [args.length]⟩) :
    Plays su main fuel (Eval.call su.host callee args.toArray) pos
      (st.push callee ++ args.toArray) (Pushing (pos + 2) st) := by
  refine (AtOnce.intro hsteps hdecoded nofun fun m hm hbeyond => ?_).plays
  have hstack : m.stack = st ++ (callee :: args).toArray := by
    rw [hm.stack]
    simp
  refine .bind (.popMany hstack rfl ?_)
  rw [show (callee :: args).toArray.extract 1 (callee :: args).toArray.size = args.toArray by simp,
    show (callee :: args).toArray.getD 0 .nil = callee from rfl]
  cases callee with
  | function f => exact absurd rfl (hbeyond m.scene)
  | closure id f cells => exact absurd rfl (hbeyond m.scene)
  | builtin id b =>
    show Action.Ends (Action.callBuiltin su b args.toArray) { m with stack := st } _ _
    have heval := Eval.call_builtin su.host id b args.toArray m.scene
    unfold Action.Ends Action.callBuiltin
    dsimp only
    rcases hcall : b.call su.host args.toArray ⟨m.heap, m.world⟩ with ⟨v, ⟨heap, world⟩⟩
    rw [show b.call su.host args.toArray ⟨m.scene.heap, m.scene.world⟩ = _ from hcall] at heval
    cases v with
    | error kind message => exact ⟨heval, hm.calls⟩
    | _ => exact ⟨_, heval, ⟨hm.ip, rfl⟩, hm.function, hm.calls⟩
  | _ => exact ⟨rfl, hm.calls⟩

/-! ## Jumps -/

omit hsteps in
/-- The run goes on at `target` if the value of the test is the expected one, and otherwise at
`next`. -/
def Branching (expected : Bool) (target next : Nat) (st : Array Value) (holds : Bool) (ip : Nat)
    (stack : Array Value) : Prop :=
  ip = (if holds = expected then target else next) ∧ stack = st

theorem Plays.jump {distance : Nat}
    (hdecoded : decode main.code pos = .ok ⟨.jumpForward, [distance]⟩) :
    Plays su main fuel (pure ()) pos st (Leaving (pos + 3 + distance) st) := by
  refine (AtOnce.intro hsteps hdecoded nofun fun m hm _ => ?_).plays
  have htarget : Instruction.target? ⟨.jumpForward, [distance]⟩ pos = some (pos + 3 + distance) :=
    Instruction.target?_forward rfl rfl
  refine .jump pos htarget ?_
  exact ⟨(), rfl, ⟨rfl, hm.stack⟩, hm.function, hm.calls⟩

theorem AtOnce.branch {expected : Bool} {target : Nat} {v : Value}
    (hdecoded : decode main.code pos = .ok ins) (htarget : ins.target? pos = some target)
    (hexecute : Action.execute su pos ins = Action.jumpIf expected ins pos)
    (hsize : ins.size = 3) (hhalt : ins.op ≠ .halt) :
    AtOnce su main (Eval.truth v) pos (st.push v) (Branching expected target (pos + 3) st) := by
  refine .intro hsteps hdecoded hhalt fun m hm _ => ?_
  have hlands : ∀ m' : Machine, m'.scene = m.scene → m'.stack = st → m'.function = m.function →
      m'.frames = m.frames → m'.ip = (if v.isTruthy m.heap = expected then target else pos + 3) →
      Lands main (Eval.truth v) (Branching expected target (pos + 3) st) m m' := by
    intro m' hscene hstack hfunction hframes hip
    refine ⟨v.isTruthy m.heap, ?_, ⟨hip, hstack⟩, hfunction.trans hm.function, ?_⟩
    · rw [hscene]
      rfl
    · rw [Machine.callStack, hframes]
      exact hm.calls
  rw [hexecute]
  refine .bind (.pop hm.stack (.bind ?_))
  show Action.Ends
    (if v.isTruthy m.heap = expected then Action.jump (ins.target? pos) pos else pure ())
    { m with stack := st } _ _
  by_cases hholds : v.isTruthy m.heap = expected
  · rw [if_pos hholds]
    refine .jump pos htarget (hlands _ rfl rfl rfl rfl ?_)
    rw [if_pos hholds]
  · rw [if_neg hholds]
    refine .pure (hlands _ rfl rfl rfl rfl ?_)
    rw [if_neg hholds, ← hsize]
    exact hm.ip

end

end Ember
