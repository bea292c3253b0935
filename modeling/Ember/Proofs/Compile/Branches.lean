import Ember.Compile.Compiler
import Ember.Proofs.Compile.Flow

/-! The flow of control through connectives, conditionals and loops. Each is made of pieces that
flow by themselves and of jumps between them; closing a loop turns its holes into jumps to the
condition or to the end. -/
namespace Ember
set_option autoImplicit false

/-! ## Pieces as lists -/

/-- The number of bytes of items in a row. -/
def itemsSize (items : List Item) : Nat := (items.map Item.size).sum

@[simp] theorem itemsSize_nil : itemsSize [] = 0 := rfl

@[simp] theorem itemsSize_cons (item : Item) (items : List Item) :
    itemsSize (item :: items) = item.size + itemsSize items := rfl

@[simp] theorem itemsSize_append (a b : List Item) :
    itemsSize (a ++ b) = itemsSize a + itemsSize b := by
  simp [itemsSize]

theorem Plan.itemsSize_items (p : Plan) : itemsSize p.items = p.size := by
  induction p with
  | nil => rfl
  | cons e p ih =>
    rw [Plan.size_cons, ← ih]
    rfl

theorem Fragment.byteSize_eq (a : Fragment) : a.byteSize = itemsSize a.toList := by
  have key : ∀ (items : List Item) (n : Nat),
      items.foldl (fun n item => n + item.size) n = n + itemsSize items := by
    intro items
    induction items with
    | nil => exact fun n => rfl
    | cons item items ih =>
      intro n
      rw [List.foldl_cons, ih, itemsSize_cons, Nat.add_assoc]
  rw [Fragment.byteSize, ← Array.foldl_toList, key, Nat.zero_add]

/-- The item of the body of a loop that ends at `next`, its hole aimed. -/
def Item.close (body tail next : Nat) : Item → Item
  | .op ins => .op ins
  | .hole .break => jumpOver .jumpForward (body + tail - next)
  | .hole .continue => jumpOver .jumpForward (body - next)

/-- The items of the body of a loop from `pos` on, their holes aimed. -/
def closeItems (body tail : Nat) : Nat → List Item → List Item
  | _, [] => []
  | pos, item :: items =>
    item.close body tail (pos + item.size) :: closeItems body tail (pos + item.size) items

@[simp] theorem Item.size_close (body tail next : Nat) (item : Item) :
    (item.close body tail next).size = item.size := by
  rcases item with ins | exit
  · rfl
  · cases exit <;> rfl

@[simp] theorem itemsSize_closeItems (body tail pos : Nat) (items : List Item) :
    itemsSize (closeItems body tail pos items) = itemsSize items := by
  induction items generalizing pos with
  | nil => rfl
  | cons item items ih => simp [closeItems, ih]

theorem Fragment.toList_closeLoop (a : Fragment) (body tail : Nat) :
    (a.closeLoop body tail).toList = closeItems body tail 0 a.toList := by
  have key : ∀ (items : List Item) (front : Fragment) (pos : Nat),
      (items.foldl (fun (acc : Fragment × Nat) item =>
        let next := acc.2 + item.size
        let item := match item with
          | .op ins => .op ins
          | .hole .break => jumpOver .jumpForward (body + tail - next)
          | .hole .continue => jumpOver .jumpForward (body - next)
        (acc.1.push item, next)) (front, pos)).1.toList =
      front.toList ++ closeItems body tail pos items := by
    intro items
    induction items with
    | nil => simp [closeItems]
    | cons item items ih =>
      intro front pos
      rw [List.foldl_cons]
      refine (ih _ _).trans ?_
      rw [Array.toList_push, List.append_assoc]
      rcases item with ins | exit
      · rfl
      · cases exit <;> rfl
  rw [Fragment.closeLoop, ← Array.foldl_toList]
  exact key a.toList #[] 0

/-! ## Instructions that may stand anywhere -/

/-- Instructions that no table and no place constrains. -/
def Opcode.isOrdinary : Opcode → Bool
  | .loadConst | .loadClosure | .makeCell | .returnValue | .halt
  | .loadFast | .storeFast | .loadFree | .storeFree | .loadGlobal | .storeGlobal
  | .loadName | .storeName | .loadAttr | .storeAttr => false
  | _ => true

theorem admits_ordinary (f : Routine Value) (ins : Instruction) {n : Nat}
    (h : ins.op.isOrdinary = true) (hpops : ins.pops ≤ n) :
    Admits f ins (.values n) (.values (ins.heightAfter n)) := by
  obtain ⟨op, operands⟩ := ins
  dsimp only at h
  refine ⟨?_, ?_, ?_⟩
  · cases op <;> first | rfl | cases h
  · cases op <;> cases f.scope.kind <;> first | rfl | cases h
  · have hmoves : (Shape.values n).cells = [] ∧ Instruction.pops ⟨op, operands⟩ ≤ n ∧
        Shape.values (Instruction.heightAfter ⟨op, operands⟩ n) =
          Shape.values (Instruction.heightAfter ⟨op, operands⟩ n) := ⟨rfl, hpops, rfl⟩
    cases op <;> first | exact hmoves | cases h

/-- A jump that fits its operand. -/
theorem wellFormed_jump {op : Opcode} {distance : Nat} (hop : op.isJump = true)
    (h : distance ≤ maxJump) : Instruction.WellFormed ⟨op, [distance]⟩ := by
  have hlt : distance < 65536 := by
    unfold maxJump at h
    omega
  constructor
  · cases op <;> first | exact ⟨hlt, trivial⟩ | cases hop
  · cases op <;> first | rfl | cases hop

/-! ## Jumps between pieces -/

namespace Plan

variable {f : Routine Value} {shapes : Nat → Option Shape}

/-- A piece that flows by itself flows wherever the shapes around it are its own. -/
theorem Flows.at {p : Plan} {exit : Option Shape} (h : Flows f p exit) {base : Nat}
    (hshapes : ∀ o t, shapeAt p exit o = some t → shapes (base + o) = some t) :
    FlowsAt f shapes base p := by
  have := FlowsAt.embed h base hshapes
  rwa [Nat.add_zero] at this

/-- A jump that fits, and whose target has the shape that it leaves, as has what follows if it can
fall through. -/
theorem flows_jump {op : Opcode} {distance pos n m : Nat} (hop : op.isJump = true)
    (hfit : distance ≤ maxJump) (hpops : Instruction.pops ⟨op, [distance]⟩ ≤ n)
    (hm : Instruction.heightAfter ⟨op, [distance]⟩ n = m)
    (hnext : Instruction.fallsThrough ⟨op, [distance]⟩ = true →
      shapes (pos + 3) = some (.values m))
    (htarget : ∃ t, Instruction.target? ⟨op, [distance]⟩ pos = some t ∧
      shapes t = some (.values m)) :
    Item.Flows f shapes pos (.values n) (jumpOver op distance) := by
  have hordinary : op.isOrdinary = true := by cases op <;> first | rfl | cases hop
  have hsize : Instruction.size ⟨op, [distance]⟩ = 3 := by cases op <;> first | rfl | cases hop
  refine ⟨wellFormed_jump hop hfit, .values m, ?_, ?_, fun _ => htarget⟩
  · have := admits_ordinary f ⟨op, [distance]⟩ hordinary hpops
    rwa [hm] at this
  · rwa [hsize]

/-- Offsets beyond the first part, in any form. -/
theorem shapeAt_skip {p q : Plan} {exit : Option Shape} {pos k : Nat} (h : pos = p.size + k) :
    shapeAt (p ++ q) exit pos = shapeAt q exit k := by
  rw [h, shapeAt_append_add]

/-- Offsets beyond a jump. -/
theorem shapeAt_jump {op : Opcode} {distance : Nat} {s : Shape} {p : Plan} {exit : Option Shape}
    {k : Nat} (hop : op.isJump = true) :
    shapeAt ((jumpOver op distance, s) :: p) exit (3 + k) = shapeAt p exit k := by
  have hsize : (jumpOver op distance).size = 3 := by cases op <;> first | rfl | cases hop
  rw [← hsize]
  exact shapeAt_cons_add (jumpOver op distance, s) p exit k

end Plan

theorem Instruction.target?_forward {op : Opcode} {distance pos : Nat} (hop : op.isJump = true)
    (hback : op.isBackward = false) :
    Instruction.target? ⟨op, [distance]⟩ pos = some (pos + 3 + distance) := by
  have hsize : Instruction.size ⟨op, [distance]⟩ = 3 := by cases op <;> first | rfl | cases hop
  simp only [target?, hop, hback, hsize, operand, if_true, Bool.false_eq_true, if_false,
    List.getD_cons_zero]

theorem Instruction.target?_backward {op : Opcode} {distance pos : Nat} (hop : op.isJump = true)
    (hback : op.isBackward = true) (h : distance ≤ pos + 3) :
    Instruction.target? ⟨op, [distance]⟩ pos = some (pos + 3 - distance) := by
  have hsize : Instruction.size ⟨op, [distance]⟩ = 3 := by cases op <;> first | rfl | cases hop
  simp only [target?, hop, hback, hsize, operand, if_true, List.getD_cons_zero, if_pos h]

@[simp] theorem size_jumpOver_forward (distance : Nat) :
    (jumpOver .jumpForward distance).size = 3 := rfl

@[simp] theorem size_jumpOver_ifFalse (distance : Nat) :
    (jumpOver .popJumpForwardIfFalse distance).size = 3 := rfl

namespace Flowing

variable {f : Routine Value} {test first second body : List Item} {n : Nat}

/-- A conditional without an alternative. -/
theorem conditional (htest : Flowing f test (.values n) (.values (n + 1)))
    (hfirst : Flowing f first (.values n) (.values n)) (hfit : itemsSize first ≤ maxJump) :
    Flowing f (test ++ jumpOver .popJumpForwardIfFalse (itemsSize first) :: first)
      (.values n) (.values n) := by
  obtain ⟨pt, rfl, ht, htentry⟩ := htest
  obtain ⟨pf, rfl, hf, hfentry⟩ := hfirst
  rw [Plan.itemsSize_items] at hfit ⊢
  refine ⟨pt ++ (jumpOver .popJumpForwardIfFalse pf.size, .values (n + 1)) :: pf,
    Plan.items_append _ _, ?_, ?_⟩
  · refine Plan.flowsAt_append.2 ⟨ht.at fun o t h => ?_, ?_, hf.at fun o t h => ?_⟩
    · rw [Nat.zero_add]
      exact Plan.shapeAt_append_of_eq h fun m hm => by cases hm; rfl
    · refine Plan.flows_jump rfl hfit (Nat.le_add_left 1 n) rfl (fun _ => ?_)
        ⟨_, Instruction.target?_forward rfl rfl, ?_⟩
      · rw [Plan.shapeAt_skip (k := 3 + 0) (by omega), Plan.shapeAt_jump rfl]
        exact hfentry
      · rw [Plan.shapeAt_skip (k := 3 + pf.size) (by omega), Plan.shapeAt_jump rfl,
          Plan.shapeAt_size]
        rfl
    · rw [Plan.shapeAt_skip (k := 3 + o) (by simp; omega), Plan.shapeAt_jump rfl]
      exact h
  · exact Plan.shapeAt_append_of_eq htentry fun m hm => by cases hm; rfl

/-- A conditional with an alternative. -/
theorem alternative (htest : Flowing f test (.values n) (.values (n + 1)))
    (hfirst : Flowing f first (.values n) (.values n))
    (hsecond : Flowing f second (.values n) (.values n))
    (hfit : itemsSize first + 3 ≤ maxJump) (hfit' : itemsSize second ≤ maxJump) :
    Flowing f (test ++ jumpOver .popJumpForwardIfFalse (itemsSize first + 3) ::
      (first ++ jumpOver .jumpForward (itemsSize second) :: second)) (.values n) (.values n) := by
  obtain ⟨pt, rfl, ht, htentry⟩ := htest
  obtain ⟨pf, rfl, hf, hfentry⟩ := hfirst
  obtain ⟨ps, rfl, hs, hsentry⟩ := hsecond
  rw [Plan.itemsSize_items] at hfit hfit' ⊢
  rw [Plan.itemsSize_items]
  refine ⟨pt ++ (jumpOver .popJumpForwardIfFalse (pf.size + 3), .values (n + 1)) ::
    (pf ++ (jumpOver .jumpForward ps.size, .values n) :: ps), by simp [Plan.items], ?_, ?_⟩
  · refine Plan.flowsAt_append.2 ⟨ht.at fun o t h => ?_, ?_,
      Plan.flowsAt_append.2 ⟨hf.at fun o t h => ?_, ?_, hs.at fun o t h => ?_⟩⟩
    · rw [Nat.zero_add]
      exact Plan.shapeAt_append_of_eq h fun m hm => by cases hm; rfl
    · refine Plan.flows_jump rfl hfit (Nat.le_add_left 1 n) rfl (fun _ => ?_)
        ⟨_, Instruction.target?_forward rfl rfl, ?_⟩
      · rw [Plan.shapeAt_skip (k := 3 + 0) (by omega), Plan.shapeAt_jump rfl]
        exact Plan.shapeAt_append_of_eq hfentry fun m hm => by cases hm; rfl
      · rw [Plan.shapeAt_skip (k := 3 + (pf.size + 3)) (by omega), Plan.shapeAt_jump rfl,
          Plan.shapeAt_skip (k := 3 + 0) (by omega), Plan.shapeAt_jump rfl]
        exact hsentry
    · rw [Plan.shapeAt_skip (k := 3 + o) (by simp; omega), Plan.shapeAt_jump rfl]
      exact Plan.shapeAt_append_of_eq h fun m hm => by cases hm; rfl
    · refine Plan.flows_jump rfl hfit' (Nat.zero_le n) rfl (fun h => by cases h)
        ⟨_, Instruction.target?_forward rfl rfl, ?_⟩
      rw [Plan.shapeAt_skip (k := 3 + (pf.size + (3 + ps.size))) (by simp; omega),
        Plan.shapeAt_jump rfl, Plan.shapeAt_skip rfl, Plan.shapeAt_jump rfl,
        Plan.shapeAt_size]
      rfl
    · rw [Plan.shapeAt_skip (k := 3 + (pf.size + (3 + o))) (by simp; omega),
        Plan.shapeAt_jump rfl, Plan.shapeAt_skip rfl, Plan.shapeAt_jump rfl]
      exact h
  · exact Plan.shapeAt_append_of_eq htentry fun m hm => by cases hm; rfl

end Flowing

/-- The end of a connective: the value of the second operand is tested, and the value of the
connective is pushed. -/
def connectiveEnd (jump decided undecided : Opcode) (n : Nat) : Plan :=
  [(jumpOver jump 4, .values (n + 1)), (.op ⟨undecided, []⟩, .values n),
    (jumpOver .jumpForward 1, .values (n + 1)), (.op ⟨decided, []⟩, .values n)]

section
variable {f : Routine Value} {first second : List Item} {n : Nat} {jump decided undecided : Opcode}
  (hjump : jump = .popJumpForwardIfTrue ∨ jump = .popJumpForwardIfFalse)
  (hundecided : undecided = .pushTrue ∨ undecided = .pushFalse)
include hjump hundecided

theorem shapeAt_connectiveEnd (exit : Option Shape) :
    (connectiveEnd jump decided undecided n).shapeAt exit 7 = some (.values n) := by
  rcases hjump with rfl | rfl <;> rcases hundecided with rfl | rfl <;> rfl

theorem flows_connectiveEnd (hdecided : decided = .pushTrue ∨ decided = .pushFalse) :
    (connectiveEnd jump decided undecided n).Flows f (some (.values (n + 1))) := by
  have hpush : ∀ {op : Opcode} {shapes : Nat → Option Shape} {pos : Nat},
      op = .pushTrue ∨ op = .pushFalse → shapes (pos + 1) = some (.values (n + 1)) →
      Item.Flows f shapes pos (.values n) (.op ⟨op, []⟩) := by
    intro op shapes pos hop hnext
    have hw : Instruction.WellFormed ⟨op, []⟩ := by
      rcases hop with rfl | rfl <;> exact ⟨trivial, rfl⟩
    refine ⟨hw, .values (n + 1), ?_, fun _ => ?_, fun hj => ?_⟩
    · rcases hop with rfl | rfl <;> exact admits_ordinary f _ rfl (Nat.zero_le n)
    · rcases hop with rfl | rfl <;> exact hnext
    · rcases hop with rfl | rfl <;> cases hj
  rcases hjump with rfl | rfl <;> rcases hundecided with rfl | rfl <;>
    rcases hdecided with rfl | rfl <;>
    exact ⟨Plan.flows_jump rfl (by decide) (Nat.le_add_left 1 n) rfl (fun _ => rfl) ⟨7, rfl, rfl⟩,
      hpush (by decide) rfl,
      Plan.flows_jump rfl (by decide) (Nat.zero_le _) rfl (fun h => by cases h) ⟨8, rfl, rfl⟩,
      hpush (by decide) rfl, trivial⟩

/-- A connective whose operands jump to `decided` where they decide it. -/
theorem Flowing.connective (hdecided : decided = .pushTrue ∨ decided = .pushFalse)
    (hfirst : Flowing f first (.values n) (.values (n + 1)))
    (hsecond : Flowing f second (.values n) (.values (n + 1)))
    (hfit : itemsSize second + 7 ≤ maxJump) :
    Flowing f (first ++ jumpOver jump (itemsSize second + 7) :: (second ++
      [jumpOver jump 4, .op ⟨undecided, []⟩, jumpOver .jumpForward 1, .op ⟨decided, []⟩]))
      (.values n) (.values (n + 1)) := by
  obtain ⟨pf, rfl, hf, hfentry⟩ := hfirst
  obtain ⟨ps, rfl, hs, hsentry⟩ := hsecond
  rw [Plan.itemsSize_items] at hfit ⊢
  have hisJump : jump.isJump = true := by rcases hjump with rfl | rfl <;> rfl
  have htarget : ∀ {d pos : Nat}, Instruction.target? ⟨jump, [d]⟩ pos = some (pos + 3 + d) := by
    rcases hjump with rfl | rfl <;> exact Instruction.target?_forward rfl rfl
  have hpops : ∀ d, Instruction.pops ⟨jump, [d]⟩ ≤ n + 1 := by
    rcases hjump with rfl | rfl <;> exact fun d => Nat.le_add_left 1 n
  have hafter : ∀ d, Instruction.heightAfter ⟨jump, [d]⟩ (n + 1) = n := by
    rcases hjump with rfl | rfl <;> exact fun d => rfl
  have hsize : ∀ d, (jumpOver jump d).size = 3 := by
    rcases hjump with rfl | rfl <;> exact fun d => rfl
  refine ⟨pf ++ (jumpOver jump (ps.size + 7), .values (n + 1)) ::
    (ps ++ connectiveEnd jump decided undecided n), by simp [Plan.items, connectiveEnd], ?_, ?_⟩
  · refine Plan.flowsAt_append.2 ⟨hf.at fun o t h => ?_, ?_, Plan.flowsAt_append.2
      ⟨hs.at fun o t h => ?_, (flows_connectiveEnd hjump hundecided hdecided).at fun o t h => ?_⟩⟩
    · rw [Nat.zero_add]
      exact Plan.shapeAt_append_of_eq h fun m hm => by cases hm; rfl
    · refine Plan.flows_jump hisJump hfit (hpops _) (hafter _) (fun _ => ?_) ⟨_, htarget, ?_⟩
      · rw [Plan.shapeAt_skip (k := 3 + 0) (by omega), Plan.shapeAt_jump hisJump]
        exact Plan.shapeAt_append_of_eq hsentry fun m hm => by cases hm; rfl
      · rw [Plan.shapeAt_skip (k := 3 + (ps.size + 7)) (by omega), Plan.shapeAt_jump hisJump,
          Plan.shapeAt_skip rfl]
        exact shapeAt_connectiveEnd hjump hundecided _
    · rw [Plan.shapeAt_skip (k := 3 + o) (by simp [hsize]; omega), Plan.shapeAt_jump hisJump]
      exact Plan.shapeAt_append_of_eq h fun m hm => by cases hm; rfl
    · rw [Plan.shapeAt_skip (k := 3 + (ps.size + o)) (by simp [hsize]; omega),
        Plan.shapeAt_jump hisJump, Plan.shapeAt_skip rfl]
      exact h
  · exact Plan.shapeAt_append_of_eq hfentry fun m hm => by cases hm; rfl

end

/-! ## Loops -/

/-- The plan of the body of a loop from `pos` on, its holes aimed. -/
def Plan.close (body tail : Nat) : Nat → Plan → Plan
  | _, [] => []
  | pos, (item, s) :: rest =>
    (item.close body tail (pos + item.size), s) :: close body tail (pos + item.size) rest

namespace Plan

theorem items_close (body tail pos : Nat) (p : Plan) :
    (p.close body tail pos).items = closeItems body tail pos p.items := by
  induction p generalizing pos with
  | nil => rfl
  | cons e p ih =>
    have := ih (pos + e.1.size)
    simp only [items] at this
    simp only [close, items, closeItems, List.map_cons, this]

theorem size_close (body tail pos : Nat) (p : Plan) : (p.close body tail pos).size = p.size := by
  rw [← itemsSize_items, items_close, itemsSize_closeItems, itemsSize_items]

theorem shapeAt_close (body tail pos : Nat) (p : Plan) (exit : Option Shape) (o : Nat) :
    (p.close body tail pos).shapeAt exit o = p.shapeAt exit o := by
  induction p generalizing pos o with
  | nil => rfl
  | cons e p ih =>
    rw [close, shapeAt, shapeAt, Item.size_close, ih]

/-- Holes that are aimed lead to the condition, which follows the body, or to the end of the
loop. -/
theorem FlowsAt.close {f : Routine Value} {shapes shapes' : Nat → Option Shape}
    {body tail pos : Nat} {p : Plan} (base : Nat) (h : FlowsAt f shapes pos p)
    (hshapes : ∀ o t, shapes o = some t → shapes' (base + o) = some t)
    (hcondition : shapes' (base + body) = some (.values 0))
    (hend : shapes' (base + (body + tail)) = some (.values 0))
    (hin : pos + p.size ≤ body) (hfit : body + tail ≤ maxJump) :
    FlowsAt f shapes' (base + pos) (p.close body tail pos) := by
  induction p generalizing pos with
  | nil => trivial
  | cons e p ih =>
    obtain ⟨item, s⟩ := e
    obtain ⟨hitem, hrest⟩ := h
    rw [size_cons] at hin
    refine ⟨?_, ?_⟩
    · rcases item with ins | exit
      · exact Item.Flows.embed hitem base hshapes
      · have hsize : (Item.hole exit).size = 3 := rfl
        change s = .values 0 at hitem
        subst hitem
        dsimp only at hin
        cases exit with
        | «break» =>
          refine flows_jump rfl (by omega) (Nat.zero_le 0) rfl (fun h => by cases h)
            ⟨_, Instruction.target?_forward rfl rfl, ?_⟩
          refine Eq.trans ?_ hend
          congr 1
          omega
        | «continue» =>
          refine flows_jump rfl (by omega) (Nat.zero_le 0) rfl (fun h => by cases h)
            ⟨_, Instruction.target?_forward rfl rfl, ?_⟩
          refine Eq.trans ?_ hcondition
          congr 1
          omega
    · rw [Item.size_close, Nat.add_assoc]
      dsimp only at hin
      exact ih hrest (by omega)

end Plan

/-- A loop: its body stands before its condition, and is entered by a jump over it. -/
theorem Flowing.loop {f : Routine Value} {body test : List Item}
    (hbody : Flowing f body (.values 0) (.values 0))
    (htest : Flowing f test (.values 0) (.values 1))
    (hfit : itemsSize body + (itemsSize test + 3) ≤ maxJump) :
    Flowing f (jumpOver .jumpForward (itemsSize body) ::
      (closeItems (itemsSize body) (itemsSize test + 3) 0 body ++ (test ++
        [jumpOver .popJumpBackwardIfTrue (itemsSize body + (itemsSize test + 3))])))
      (.values 0) (.values 0) := by
  obtain ⟨pb, rfl, hb, hbentry⟩ := hbody
  obtain ⟨pt, rfl, ht, htentry⟩ := htest
  rw [Plan.itemsSize_items, Plan.itemsSize_items] at hfit ⊢
  have hcsize := Plan.size_close pb.size (pt.size + 3) 0 pb
  have hclosed := Plan.items_close pb.size (pt.size + 3) 0 pb
  have hcshape := Plan.shapeAt_close pb.size (pt.size + 3) 0 pb
  -- the condition begins with the shape that the body leaves
  have hmid : Plan.shapeAt (pt ++ [(jumpOver .popJumpBackwardIfTrue (pb.size + (pt.size + 3)),
      Shape.values 1)]) (some (.values 0)) 0 = some (.values 0) :=
    Plan.shapeAt_append_of_eq htentry fun m hm => by cases hm; rfl
  have hbegin : ∀ o t, pb.shapeAt (some (.values 0)) o = some t →
      Plan.shapeAt (pb.close pb.size (pt.size + 3) 0 ++ (pt ++
        [(jumpOver .popJumpBackwardIfTrue (pb.size + (pt.size + 3)), Shape.values 1)]))
        (some (.values 0)) o = some t := by
    intro o t h
    rw [← hcshape] at h
    exact Plan.shapeAt_append_of_eq h fun m hm => by cases hm; exact hmid
  refine ⟨(jumpOver .jumpForward pb.size, .values 0) :: (pb.close pb.size (pt.size + 3) 0 ++ (pt ++
    [(jumpOver .popJumpBackwardIfTrue (pb.size + (pt.size + 3)), .values 1)])), ?_, ?_, rfl⟩
  · rw [← hclosed]
    simp [Plan.items]
  · refine ⟨?_, Plan.flowsAt_append.2 ⟨?_, Plan.flowsAt_append.2
      ⟨ht.at fun o t h => ?_, ?_, trivial⟩⟩⟩
    · refine Plan.flows_jump rfl (by omega) (Nat.zero_le 0) rfl (fun h => by cases h)
        ⟨_, Instruction.target?_forward rfl rfl, ?_⟩
      rw [show 0 + 3 + pb.size = 3 + ((pb.close pb.size (pt.size + 3) 0).size + 0) by omega,
        Plan.shapeAt_jump rfl, Plan.shapeAt_append_add]
      exact hmid
    · refine Plan.FlowsAt.close 3 hb (fun o t h => ?_) ?_ ?_ (by omega) hfit
      · rw [Plan.shapeAt_jump rfl]
        exact hbegin o t h
      · rw [Plan.shapeAt_jump rfl, Plan.shapeAt_skip (k := 0) (by omega)]
        exact hmid
      · rw [Plan.shapeAt_jump rfl, Plan.shapeAt_skip (k := pt.size + 3) (by omega),
          Plan.shapeAt_append_add]
        rfl
    · rw [show 0 + (jumpOver .jumpForward pb.size).size +
        (pb.close pb.size (pt.size + 3) 0).size + o
        = 3 + ((pb.close pb.size (pt.size + 3) 0).size + o) by simp; omega,
        Plan.shapeAt_jump rfl, Plan.shapeAt_append_add]
      exact Plan.shapeAt_append_of_eq h fun m hm => by cases hm; rfl
    · refine Plan.flows_jump rfl hfit (Nat.le_refl 1) rfl (fun _ => ?_) ⟨3 + 0, ?_, ?_⟩
      · rw [show 0 + (jumpOver .jumpForward pb.size).size +
          (pb.close pb.size (pt.size + 3) 0).size + pt.size + 3
          = 3 + ((pb.close pb.size (pt.size + 3) 0).size + (pt.size + 3)) by simp; omega,
          Plan.shapeAt_jump rfl, Plan.shapeAt_append_add, Plan.shapeAt_append_add]
        rfl
      · rw [Instruction.target?_backward rfl rfl (by simp; omega)]
        congr 1
        simp
        omega
      · rw [Plan.shapeAt_jump rfl]
        exact hbegin 0 _ hbentry

end Ember
