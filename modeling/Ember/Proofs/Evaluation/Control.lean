import Ember.Proofs.Evaluation.Instructions

/-! The flow of control as evaluation. Where the pieces of a connective, a conditional or a loop
play evaluations, so does the whole; ways out of a loop lead to where the loop has aimed them. -/
namespace Ember
set_option autoImplicit false

/-! ## Where code lies -/

/-- The item stands at a place; `exits` says where the ways out of the loop around it lead. -/
def Item.LiesAt (code : Array UInt8) (exits : LoopExit → Nat) (pos : Nat) : Item → Prop
  | .op ins => decode code pos = .ok ins
  | .hole exit => ∃ distance, decode code pos = .ok ⟨.jumpForward, [distance]⟩ ∧
      exits exit = pos + 3 + distance

/-- The items stand one after the other from a place on. -/
def LieAt (code : Array UInt8) (exits : LoopExit → Nat) : Nat → List Item → Prop
  | _, [] => True
  | pos, item :: rest => item.LiesAt code exits pos ∧ LieAt code exits (pos + item.size) rest

section
variable {code : Array UInt8} {exits : LoopExit → Nat}

theorem lieAt_append {pos : Nat} {a b : List Item} : LieAt code exits pos (a ++ b) ↔
    LieAt code exits pos a ∧ LieAt code exits (pos + itemsSize a) b := by
  induction a generalizing pos with
  | nil => simp [LieAt]
  | cons item a ih =>
    rw [List.cons_append, LieAt, LieAt, ih, itemsSize_cons, and_assoc, Nat.add_assoc]

/-- Code without holes means the same in every loop. -/
theorem LieAt.of_decodes {pos : Nat} {row : List Instruction} (h : Decodes code pos row) :
    LieAt code exits pos (row.map Item.op) := by
  induction row generalizing pos with
  | nil => trivial
  | cons ins row ih => exact ⟨h.1, ih h.2⟩

/-- Where the ways out of a loop lead whose body begins at `base`. -/
def loopExits (base body tail : Nat) : LoopExit → Nat
  | .break => base + (body + tail)
  | .continue => base + body

/-- The holes of the body of a loop lead where they have been aimed. -/
theorem LieAt.of_closed {base body tail pos : Nat} {items : List Item}
    (h : LieAt code exits (base + pos) (closeItems body tail pos items))
    (hin : pos + itemsSize items ≤ body) :
    LieAt code (loopExits base body tail) (base + pos) items := by
  induction items generalizing pos with
  | nil => trivial
  | cons item items ih =>
    obtain ⟨hitem, hrest⟩ := h
    rw [itemsSize_cons] at hin
    rw [Item.size_close, Nat.add_assoc] at hrest
    refine ⟨?_, ?_⟩
    · rcases item with ins | exit
      · exact hitem
      · have hsize : (Item.hole exit).size = 3 := rfl
        cases exit with
        | «break» =>
          refine ⟨_, hitem, ?_⟩
          show base + (body + tail) = base + pos + 3 + (body + tail - (pos + 3))
          omega
        | «continue» =>
          refine ⟨_, hitem, ?_⟩
          show base + body = base + pos + 3 + (body - (pos + 3))
          omega
    · rw [Nat.add_assoc]
      exact ih hrest (by omega)

end

/-! ## Where evaluations lead -/

/-- Where the run goes on after a statement: at `next`, or where the way out of the loop leads. -/
def Ending.place (exits : LoopExit → Nat) (next : Nat) : Ending → Nat
  | .normal => next
  | .break => exits .break
  | .continue => exits .continue

def Exiting (exits : LoopExit → Nat) (next : Nat) (ending : Ending) (ip : Nat)
    (stack : Array Value) : Prop :=
  ip = ending.place exits next ∧ stack = #[]

section
variable {su : Surroundings} {main : Routine Value} {fuel pos next : Nat} {st : Array Value}
  {exits : LoopExit → Nat} {β : Type} {R : β → Nat → Array Value → Prop}

theorem Plays.exited {x : Eval Ending} {f : Ending → Eval β}
    (hx : Plays su main fuel x pos st (Exiting exits next))
    (hf : ∀ ending : Ending, Plays su main fuel (f ending) (ending.place exits next) #[] R) :
    Plays su main fuel (x >>= f) pos st R := by
  refine hx.bind fun ending ip stack h => ?_
  rw [h.1, h.2]
  exact hf ending

theorem AtOnce.branched {x : Eval Bool} {f : Bool → Eval β} {expected : Bool} {target : Nat}
    {st' : Array Value} (hx : AtOnce su main x pos st (Branching expected target next st'))
    (hf : ∀ holds : Bool, Plays su main fuel (f holds) (if holds = expected then target else next)
      st' R) : Plays su main (1 + fuel) (x >>= f) pos st R := by
  refine hx.bind fun holds ip stack h => ?_
  rw [h.1, h.2]
  exact hf holds

variable (hsteps : su.settings.maxSteps = none)
include hsteps

/-! ## Connectives -/

omit hsteps in
/-- The truth value that decides the connective. -/
def Connective.decides : Connective → Bool
  | and => false
  | or => true

omit hsteps in
theorem Connective.join_eq (op : Connective) (left right : Eval Value) :
    op.join left right = (do
      let holds ← Eval.truth (← left)
      if holds = op.decides then return .bool op.decides
      else return .bool (← Eval.truth (← right))) := by
  cases op with
  | and =>
    refine bind_congr fun v => bind_congr fun holds => ?_
    cases holds <;> rfl
  | or =>
    refine bind_congr fun v => bind_congr fun holds => ?_
    cases holds <;> rfl

/-- An operand of a connective jumps over `distance` bytes if it decides. -/
theorem Plays.operand {op : Connective} {distance : Nat} {v : Value} {f : Bool → Eval Value}
    {R : Value → Nat → Array Value → Prop}
    (hdecoded : decode main.code pos = .ok ⟨op.jump, [distance]⟩)
    (hf : ∀ holds : Bool, Plays su main fuel (f holds)
      (if holds = op.decides then pos + 3 + distance else pos + 3) st R) :
    Plays su main fuel (Eval.truth v >>= f) pos (st.push v) R := by
  have hbranch : AtOnce su main (Eval.truth v) pos (st.push v)
      (Branching op.decides (pos + 3 + distance) (pos + 3) st) := by
    cases op with
    | and => exact .branch hsteps hdecoded (Instruction.target?_forward rfl rfl) rfl rfl nofun
    | or => exact .branch hsteps hdecoded (Instruction.target?_forward rfl rfl) rfl rfl nofun
  exact (hbranch.branched hf).weaken (Nat.le_add_left fuel 1)

theorem Plays.connective {op : Connective} {left right : Eval Value} {first second : List Item}
    (hlies : LieAt main.code exits pos (op.items first second))
    (hleft : Plays su main fuel left pos st (Pushing (pos + itemsSize first) st))
    (hright : Plays su main fuel right (pos + itemsSize first + 3) st
      (Pushing (pos + itemsSize first + 3 + itemsSize second) st)) :
    Plays su main fuel (op.join left right) pos st
      (Pushing (pos + itemsSize (op.items first second)) st) := by
  have hjump : ∀ d, (jumpOver op.jump d).size = 3 := by cases op <;> exact fun d => rfl
  have hdecided : Item.size (.op ⟨op.decided, []⟩) = 1 := by cases op <;> rfl
  have hundecided : Item.size (.op ⟨op.undecided, []⟩) = 1 := by cases op <;> rfl
  obtain ⟨-, htest, hrest⟩ := lieAt_append.1 hlies
  rw [hjump] at hrest
  obtain ⟨-, htest', hno, hpast, hyes, -⟩ := lieAt_append.1 hrest
  rw [hjump] at hno hpast hyes
  rw [hundecided] at hpast hyes
  have hend : pos + itemsSize (op.items first second) =
      pos + itemsSize first + 3 + itemsSize second + 8 := by
    simp only [Connective.items, itemsSize_append, itemsSize_cons, hjump, hdecided, hundecided,
      itemsSize_nil, size_jumpOver_forward]
    omega
  rw [hend, op.join_eq]
  -- the last instruction, to which both operands jump
  have hdecides : Plays su main fuel (pure (.bool op.decides))
      (pos + itemsSize first + 3 + itemsSize second + 7) st
      (Pushing (pos + itemsSize first + 3 + itemsSize second + 8) st) := by
    cases op with
    | and => exact .literal hsteps hyes rfl (by decide)
    | or => exact .literal hsteps hyes rfl (by decide)
  refine hleft.pushed fun v => Plays.operand hsteps htest fun holds => ?_
  by_cases hholds : holds = op.decides
  · rw [if_pos hholds, if_pos hholds, ← Nat.add_assoc]
    exact hdecides
  · rw [if_neg hholds, if_neg hholds]
    refine hright.pushed fun w => Plays.operand hsteps htest' fun holds' => ?_
    by_cases hholds' : holds' = op.decides
    · rw [if_pos hholds', hholds']
      exact hdecides
    · rw [if_neg hholds']
      have hvalue : Plays su main fuel (pure (.bool holds'))
          (pos + itemsSize first + 3 + itemsSize second + 3) st
          (Pushing (pos + itemsSize first + 3 + itemsSize second + 4) st) := by
        cases op with
        | and =>
          rw [Bool.not_eq_false holds' |>.mp hholds']
          exact .literal hsteps hno rfl (by decide)
        | or =>
          rw [Bool.not_eq_true holds' |>.mp hholds']
          exact .literal hsteps hno rfl (by decide)
      have := hvalue.pushed (f := pure) (R := Pushing _ st) fun v =>
        (Plays.jump hsteps hpast).skip (.done ⟨rfl, rfl⟩)
      rwa [bind_pure] at this

/-! ## Conditionals -/

/-- A body is skipped over `distance` bytes if the condition fails. -/
theorem Plays.guarded {distance : Nat} {v : Value} {f : Bool → Eval Ending}
    {R : Ending → Nat → Array Value → Prop}
    (hdecoded : decode main.code pos = .ok ⟨.popJumpForwardIfFalse, [distance]⟩)
    (htrue : Plays su main fuel (f true) (pos + 3) st R)
    (hfalse : Plays su main fuel (f false) (pos + 3 + distance) st R) :
    Plays su main fuel (Eval.truth v >>= f) pos (st.push v) R := by
  have hbranch : AtOnce su main (Eval.truth v) pos (st.push v)
      (Branching false (pos + 3 + distance) (pos + 3) st) :=
    .branch hsteps hdecoded (Instruction.target?_forward rfl rfl) rfl rfl nofun
  refine (hbranch.branched fun holds => ?_).weaken (Nat.le_add_left fuel 1)
  cases holds with
  | true => exact htrue
  | false => exact hfalse

theorem Plays.conditional {cond : Eval Value} {body : Eval Ending} {test first : List Item}
    (hlies : LieAt main.code exits pos
      (test ++ jumpOver .popJumpForwardIfFalse (itemsSize first) :: first))
    (hcond : Plays su main fuel cond pos #[] (Pushing (pos + itemsSize test) #[]))
    (hbody : Plays su main fuel body (pos + itemsSize test + 3) #[]
      (Exiting exits (pos + itemsSize test + 3 + itemsSize first))) :
    Plays su main fuel (do if ← Eval.truth (← cond) then body else return .normal) pos #[]
      (Exiting exits
        (pos + itemsSize
          (test ++ jumpOver .popJumpForwardIfFalse (itemsSize first) :: first))) := by
  obtain ⟨-, hjump, -⟩ := lieAt_append.1 hlies
  rw [show pos + itemsSize (test ++ jumpOver .popJumpForwardIfFalse (itemsSize first) :: first) =
    pos + itemsSize test + 3 + itemsSize first by simp; omega]
  exact hcond.pushed fun v => Plays.guarded hsteps hjump hbody (.done ⟨rfl, rfl⟩)

theorem Plays.alternative {cond : Eval Value} {body other : Eval Ending}
    {test first second : List Item}
    (hlies : LieAt main.code exits pos (test ++ jumpOver .popJumpForwardIfFalse
      (itemsSize first + 3) :: (first ++ jumpOver .jumpForward (itemsSize second) :: second)))
    (hcond : Plays su main fuel cond pos #[] (Pushing (pos + itemsSize test) #[]))
    (hbody : Plays su main fuel body (pos + itemsSize test + 3) #[]
      (Exiting exits (pos + itemsSize test + 3 + itemsSize first)))
    (hother : Plays su main fuel other (pos + itemsSize test + 3 + itemsSize first + 3) #[]
      (Exiting exits (pos + itemsSize test + 3 + itemsSize first + 3 + itemsSize second))) :
    Plays su main fuel (do if ← Eval.truth (← cond) then body else other) pos #[]
      (Exiting exits (pos + itemsSize (test ++ jumpOver .popJumpForwardIfFalse
        (itemsSize first + 3) ::
          (first ++ jumpOver .jumpForward (itemsSize second) :: second)))) := by
  obtain ⟨-, hjump, hrest⟩ := lieAt_append.1 hlies
  obtain ⟨-, hpast, -⟩ := lieAt_append.1 hrest
  rw [show pos + itemsSize (test ++ jumpOver .popJumpForwardIfFalse (itemsSize first + 3) ::
    (first ++ jumpOver .jumpForward (itemsSize second) :: second)) =
    pos + itemsSize test + 3 + itemsSize first + 3 + itemsSize second by simp; omega]
  refine hcond.pushed fun v => Plays.guarded hsteps hjump ?_ ?_
  · -- only a body that ends normally comes to the jump over the alternative
    have := hbody.exited (f := pure) (R := Exiting exits _) fun ending => by
      cases ending with
      | normal => exact (Plays.jump hsteps hpast).skip (.done ⟨rfl, rfl⟩)
      | «break» => exact .done ⟨rfl, rfl⟩
      | «continue» => exact .done ⟨rfl, rfl⟩
    rwa [bind_pure] at this
  · rw [← Nat.add_assoc]
    exact hother

/-! ## Loops -/

/-- Going round from the condition on. Every round takes a step, so running out of fuel takes as
many steps as there was fuel. -/
theorem Plays.rounds {cond : Eval Value} {body : Eval Ending} {base b t : Nat}
    (hagain : decode main.code (base + b + t) = .ok ⟨.popJumpBackwardIfTrue, [b + (t + 3)]⟩)
    (hcond : Plays su main fuel cond (base + b) #[] (Pushing (base + b + t) #[]))
    (hbody : Plays su main fuel body base #[] (Exiting (loopExits base b (t + 3)) (base + b)))
    {n : Nat} (hn : n ≤ fuel) :
    Plays su main n (Eval.loop (do Eval.truth (← cond)) body n) (base + b) #[]
      (Exiting exits (base + b + (t + 3))) := by
  have htarget : Instruction.target? ⟨.popJumpBackwardIfTrue, [b + (t + 3)]⟩ (base + b + t) =
      some base := by
    rw [Instruction.target?_backward rfl rfl (by omega)]
    congr 1
    omega
  induction n with
  | zero => exact fun m hm => .here trivial
  | succ n ih =>
    have hless := Nat.le_of_succ_le hn
    rw [Eval.loop, bind_assoc]
    refine (hcond.weaken hn).pushed fun v => ?_
    have hbranch : AtOnce su main (Eval.truth v) (base + b + t) (#[].push v)
        (Branching true base (base + b + t + 3) #[]) :=
      .branch hsteps hagain htarget rfl rfl nofun
    rw [Nat.add_comm n 1]
    refine hbranch.branched fun holds => ?_
    cases holds with
    | false => exact .done ⟨rfl, rfl⟩
    | true =>
      refine (hbody.weaken hless).exited fun ending => ?_
      cases ending with
      | normal => exact ih hless
      | «continue» => exact ih hless
      | «break» => exact .done ⟨(Nat.add_assoc base b (t + 3)).symm, rfl⟩

omit hsteps in
/-- The items of a loop, from those of its body and its condition. -/
def loopItems (body test : List Item) : List Item :=
  jumpOver .jumpForward (itemsSize body) ::
    (closeItems (itemsSize body) (itemsSize test + 3) 0 body ++ (test ++
      [jumpOver .popJumpBackwardIfTrue (itemsSize body + (itemsSize test + 3))]))

omit hsteps in
theorem toList_loop (inner test : Fragment) :
    ((#[jumpOver .jumpForward inner.byteSize] ++
      inner.closeLoop inner.byteSize (test.byteSize + 3) ++ test).push
        (.op ⟨.popJumpBackwardIfTrue, [inner.byteSize + (test.byteSize + 3)]⟩)).toList =
      loopItems inner.toList test.toList := by
  rw [Fragment.byteSize_eq, Fragment.byteSize_eq]
  simp [Fragment.toList_closeLoop, jumpOver, loopItems]

omit hsteps in
theorem itemsSize_loopItems (body test : List Item) :
    itemsSize (loopItems body test) = 3 + itemsSize body + itemsSize test + 3 := by
  simp [loopItems, show ∀ d, (jumpOver .popJumpBackwardIfTrue d).size = 3 from fun _ => rfl]
  omega

theorem Plays.loop {cond : Eval Value} {body : Eval Ending} {inner test : List Item}
    (hlies : LieAt main.code exits pos (loopItems inner test))
    (hcond : Plays su main fuel cond (pos + 3 + itemsSize inner) #[]
      (Pushing (pos + 3 + itemsSize inner + itemsSize test) #[]))
    (hbody : Plays su main fuel body (pos + 3) #[]
      (Exiting (loopExits (pos + 3) (itemsSize inner) (itemsSize test + 3))
        (pos + 3 + itemsSize inner))) :
    Plays su main fuel (Eval.loop (do Eval.truth (← cond)) body fuel) pos #[]
      (Exiting exits (pos + itemsSize (loopItems inner test))) := by
  obtain ⟨henter, hrest⟩ := hlies
  obtain ⟨-, htest⟩ := lieAt_append.1 hrest
  obtain ⟨-, hagain, -⟩ := lieAt_append.1 htest
  rw [itemsSize_closeItems] at hagain
  rw [show pos + itemsSize (loopItems inner test) =
    pos + 3 + itemsSize inner + (itemsSize test + 3) by rw [itemsSize_loopItems]; omega]
  exact (Plays.jump hsteps henter).skip (.rounds hsteps hagain hcond hbody (Nat.le_refl fuel))

end

end Ember
