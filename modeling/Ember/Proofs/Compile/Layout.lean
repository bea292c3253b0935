import Ember.Proofs.Evaluation.Compiled

/-! Where the code of a program stands. The layout of an expression or a statement says which
instructions stand between two places, one right after the other, and what their operands point at:
variables and names by what they are called, constants by their value, functions by the layout of
their own code, and jumps by the place that they lead to. Code that was compiled is laid out as its
program says; no operand has lost a part of what it was meant to hold. -/
namespace Ember
set_option autoImplicit false

open CompileM

/-! ## What instructions point at -/

namespace Routine

/-- The instruction stands at a place, and the next one follows it. -/
def Has (f : Routine Value) (ins : Instruction) (pos next : Nat) : Prop :=
  decode f.code pos = .ok ins ∧ next = pos + ins.size

/-- A jump stands at a place and leads to `target`. -/
def Jumps (f : Routine Value) (op : Opcode) (pos target next : Nat) : Prop :=
  ∃ distance, f.Has ⟨op, [distance]⟩ pos next ∧
    Instruction.target? ⟨op, [distance]⟩ pos = some target

/-- What the variable is called. -/
def variableName? (f : Routine Value) : Capture → Option String
  | .slot i => f.scope.slots[i]?
  | .free i => (f.freeVariables[i]?).map FreeVariable.name

end Routine

/-- The operands of the instruction that makes a cell of the variable. -/
def Capture.operands : Capture → List Nat
  | .slot i => [i, 0]
  | .free i => [i, 1]

/-! ## Layouts -/

/-- What stands in the code of a function between two places; the ways out of the loop around it, if
there is one, lead where `exits` says. -/
def Layout : Type := Routine Value → (LoopExit → Option Nat) → Nat → Nat → Prop

namespace Layout

def nothing : Layout := fun _ _ pos next => next = pos

def andThen (P Q : Layout) : Layout := fun f exits pos next =>
  ∃ mid, P f exits pos mid ∧ Q f exits mid next

def instruction (ins : Instruction) : Layout := fun f _ pos next => f.Has ins pos next

/-- A constant is loaded. -/
def constant (v : Value) : Layout := fun f _ pos next =>
  ∃ i, f.Has ⟨.loadConst, [i]⟩ pos next ∧ f.constants[i]? = some v

/-- The operand points at a name. -/
def named (op : Opcode) (name : String) : Layout := fun f _ pos next =>
  ∃ i, f.Has ⟨op, [i]⟩ pos next ∧ f.names[i]? = some name

/-- The operand points at a variable or a name; there are opcodes for the slots and the cells of a
function, and for names of the session in functions and at the top level. -/
def access (slot free global top : Opcode) (name : String) : Layout := fun f _ pos next =>
  ∃ op i, f.Has ⟨op, [i]⟩ pos next ∧
    ((op = slot ∧ f.variableName? (.slot i) = some name) ∨
      (op = free ∧ f.variableName? (.free i) = some name) ∨
      (op = global ∧ f.scope.kind = .function ∧ f.names[i]? = some name) ∨
      (op = top ∧ f.scope.kind = .topLevel ∧ f.names[i]? = some name))

def load : String → Layout := access .loadFast .loadFree .loadGlobal .loadName

def store : String → Layout := access .storeFast .storeFree .storeGlobal .storeName

/-- A variable of the same name is captured. -/
def cell (v : FreeVariable) : Layout := fun f _ pos next =>
  f.Has ⟨.makeCell, v.capture.operands⟩ pos next ∧ f.variableName? v.capture = some v.name

def cells : List FreeVariable → Layout
  | [] => nothing
  | v :: rest => (cell v).andThen (cells rest)

/-- A function becomes a value: a constant is loaded, or a closure is made of it and of all that it
captures. -/
def closure (g : Routine Value) : Layout := fun f exits pos next =>
  ∃ i, f.constants[i]? = some (.function g) ∧
    if g.freeVariables.isEmpty then f.Has ⟨.loadConst, [i]⟩ pos next
    else ((cells g.freeVariables.toList).andThen
      (instruction ⟨.loadClosure, [i, g.freeVariables.size]⟩)) f exits pos next

/-- A function becomes a value whose own code is its body with a return at its end. -/
def function (name : String) (params : List String) (body : Layout) : Layout :=
  fun f exits pos next => ∃ g, closure g f exits pos next ∧
    g.name = name ∧ g.params = params.toArray ∧ g.scope.kind = .function ∧
    (body.andThen (instruction ⟨.returnValue, [0]⟩)) g (fun _ => none) 0 g.code.size

/-- Both operands jump to the last instruction if they decide; else the one before the last jump
gives the value. -/
def connective (op : Connective) (left right : Layout) : Layout := fun f exits pos next =>
  ∃ test start test' no past yes, left f exits pos test ∧ f.Jumps op.jump test yes start ∧
    right f exits start test' ∧ f.Jumps op.jump test' yes no ∧
    f.Has ⟨op.undecided, []⟩ no past ∧ f.Jumps .jumpForward past next yes ∧
    f.Has ⟨op.decided, []⟩ yes next

def conditional (cond body : Layout) : Layout := fun f exits pos next =>
  ∃ test start, cond f exits pos test ∧ f.Jumps .popJumpForwardIfFalse test next start ∧
    body f exits start next

def alternative (cond body other : Layout) : Layout := fun f exits pos next =>
  ∃ test start past start', cond f exits pos test ∧
    f.Jumps .popJumpForwardIfFalse test start' start ∧ body f exits start past ∧
    f.Jumps .jumpForward past next start' ∧ other f exits start' next

/-- The body comes first, then the condition, to which the first instruction jumps. -/
def loop (cond body : Layout) : Layout := fun f exits pos next =>
  ∃ start test again, f.Jumps .jumpForward pos test start ∧
    body f (fun | .break => some next | .continue => some test) start test ∧
    cond f exits test again ∧ f.Jumps .popJumpBackwardIfTrue again start next

def exit (way : LoopExit) : Layout := fun f exits pos next =>
  ∃ target, exits way = some target ∧ f.Jumps .jumpForward pos target next

end Layout

open Layout

mutual

def Expr.layout : Expr → Layout
  | .int _ n => constant (.int n)
  | .float _ x => constant (.float x)
  | .str _ s => constant (.str s)
  | .bool _ true => instruction ⟨.pushTrue, []⟩
  | .bool _ false => instruction ⟨.pushFalse, []⟩
  | .nil _ => instruction ⟨.pushNil, []⟩
  | .ident _ name => load name
  | .list _ items => (itemsLayout items).andThen (instruction ⟨.buildList, [items.length]⟩)
  | .set _ items => (itemsLayout items).andThen (instruction ⟨.buildSet, [items.length]⟩)
  | .map _ entries => (entriesLayout entries).andThen (instruction ⟨.buildMap, [entries.length]⟩)
  | .unary _ op operand => operand.layout.andThen (instruction ⟨op.opcode, []⟩)
  | .binary _ op left right =>
    (left.layout.andThen right.layout).andThen (instruction op.instruction)
  | .logical _ op left right => connective op left.layout right.layout
  | .call _ callee args =>
    (callee.layout.andThen (itemsLayout args)).andThen (instruction ⟨.call, [args.length]⟩)
  | .index _ object key =>
    (object.layout.andThen key.layout).andThen (instruction ⟨.binarySubscr, []⟩)
  | .attr _ object name => object.layout.andThen (named .loadAttr name)
  | .func _ params body => function anonymous params (bodyLayout body)

def itemsLayout : List Expr → Layout
  | [] => nothing
  | e :: rest => e.layout.andThen (itemsLayout rest)

def entriesLayout : List (Expr × Expr) → Layout
  | [] => nothing
  | (k, v) :: rest => k.layout.andThen (v.layout.andThen (entriesLayout rest))

/-- A function that is given a name right away is called by it. -/
def Stmt.layout : Stmt → Layout
  | .var _ name (.func _ params body) =>
    (function name params (bodyLayout body)).andThen (store name)
  | .var _ name value => value.layout.andThen (store name)
  | .assign _ (.ident _ name) (.func _ params body) =>
    (function name params (bodyLayout body)).andThen (store name)
  | .assign _ (.ident _ name) value => value.layout.andThen (store name)
  | .assign _ (.index _ object key) value =>
    ((value.layout.andThen object.layout).andThen key.layout).andThen
      (instruction ⟨.storeSubscr, []⟩)
  | .assign _ (.attr _ object name) value =>
    (value.layout.andThen object.layout).andThen (named .storeAttr name)
  | .assign .. => fun _ _ _ _ => False
  | .funcDef _ name params body => (function name params (bodyLayout body)).andThen (store name)
  | .return _ none => instruction ⟨.returnValue, [0]⟩
  | .return _ (some value) => value.layout.andThen (instruction ⟨.returnValue, [1]⟩)
  | .if _ cond thenBody none => conditional cond.layout (bodyLayout thenBody)
  | .if _ cond thenBody (some elseBody) =>
    alternative cond.layout (bodyLayout thenBody) (bodyLayout elseBody)
  | .while _ cond body => loop cond.layout (bodyLayout body)
  | .break _ => exit .break
  | .continue _ => exit .continue
  | .print _ value => value.layout.andThen (instruction ⟨.print, []⟩)
  | .delete _ object key =>
    (object.layout.andThen key.layout).andThen (instruction ⟨.deleteSubscr, []⟩)
  | .expr _ value => value.layout.andThen (instruction ⟨.popTop, []⟩)

def bodyLayout : List Stmt → Layout
  | [] => nothing
  | st :: rest => st.layout.andThen (bodyLayout rest)

end

/-- The value of an expression that comes last stays on the stack. -/
def chunkLayout : List Stmt → Layout
  | [] => instruction ⟨.halt, []⟩
  | [.expr _ value] => value.layout.andThen (instruction ⟨.halt, []⟩)
  | st :: rest => st.layout.andThen (chunkLayout rest)

/-- The code of the program is what stands in the range. -/
def Program.LaidOut (p : Program) (f : Routine Value) (range : CodeRange) : Prop :=
  chunkLayout p.statements f (fun _ => none) range.start range.stop

/-! ## Code that is being laid out -/

/-- All tables of the state are tables of the function, which has no more captured variables than
can be told apart. -/
structure Routine.Completes (f : Routine Value) (s : CompileState) : Prop where
  tables : Routine.Extends s.draft f
  names : ∀ (i : Nat) (n : String), s.pools.names.keys[i]? = some n → f.names[i]? = some n
  free : f.freeVariables.size ≤ Scope.slotLimit

/-- The state is ready, and no number among its constants has a sign. -/
structure Sturdy (s : CompileState) : Prop where
  ready : Ready s
  unsigned : s.pools.Unsigned

/-- Only in a loop do ways out of it lead anywhere. -/
def openExits (inLoop : Bool) (exits : LoopExit → Nat) (way : LoopExit) : Option Nat :=
  if inLoop then some (exits way) else none

/-- A part of the compiler has gone from one state to another and has given items that are laid out
as `P` says wherever they stand. -/
structure Lays (inLoop : Bool) (s s' : CompileState) (items : List Item) (P : Layout) : Prop where
  sturdy : Sturdy s'
  grows : Grows s s'
  laid : ∀ (f : Routine Value) (exits : LoopExit → Nat) (pos : Nat), f.Completes s' →
    LieAt f.code exits pos items → P f (openExits inLoop exits) pos (pos + itemsSize items)

theorem Routine.Completes.mono {f : Routine Value} {s s' : CompileState} (h : f.Completes s')
    (hgrows : Grows s s') : f.Completes s :=
  ⟨hgrows.draft.trans h.tables, fun i n hn => h.names i n (hgrows.names i n hn), h.free⟩

/-- A variable of the draft is called the same in the function. -/
theorem Routine.Completes.variableName? {f : Routine Value} {s : CompileState} {name : String}
    {c : Capture} (h : f.Completes s) (hc : s.draft.Holds name c) :
    f.variableName? c = some name := by
  have hf := hc.mono h.tables
  cases c with
  | slot i => exact hf
  | free i => exact hf.2 h.free

section
variable {inLoop : Bool} {s s₁ s' : CompileState} {P Q : Layout}

namespace Lays

theorem nil (hs : Sturdy s) : Lays inLoop s s [] nothing := ⟨hs, .refl s, fun _ _ _ _ _ => rfl⟩

theorem op (hs : Sturdy s) (ins : Instruction) :
    Lays inLoop s s [.op ins] (instruction ins) :=
  ⟨hs, .refl s, fun _ _ _ _ hlies => ⟨hlies.1, rfl⟩⟩

theorem append {a b : List Item} (ha : Lays inLoop s s₁ a P) (hb : Lays inLoop s₁ s' b Q) :
    Lays inLoop s s' (a ++ b) (P.andThen Q) := by
  refine ⟨hb.sturdy, ha.grows.trans hb.grows, fun f exits pos hf hlies => ?_⟩
  obtain ⟨hfront, hback⟩ := lieAt_append.1 hlies
  refine ⟨pos + itemsSize a, ha.laid f exits pos (hf.mono hb.grows) hfront, ?_⟩
  rw [itemsSize_append, ← Nat.add_assoc]
  exact hb.laid f exits _ hf hback

/-- Growth before the code is written. -/
theorem after {a : List Item} (hgrows : Grows s s₁) (ha : Lays inLoop s₁ s' a P) :
    Lays inLoop s s' a P := ⟨ha.sturdy, hgrows.trans ha.grows, ha.laid⟩

end Lays

/-! ## Constants, names and variables -/

theorem addConstant_sturdy {v : Value} {span : Span} {i : Nat} (hs : Sturdy s)
    (hv : v.isConstant = true) (hf : ∀ g, v ≠ .function g)
    (hunsigned : ∀ x, v = .float x → Unsigned x) (h : addConstant v span s = .ok (i, s')) :
    Sturdy s' ∧ Grows s s' ∧ s'.pools.constants[i]? = some v := by
  obtain ⟨hready, hgrows, -, w, hw, hsame⟩ := addConstant_spec hs.ready hv
    (fun g hg => absurd hg (hf g)) h
  have hafter := KeepsUnsigned.addConstant hunsigned span hs.unsigned h
  refine ⟨⟨hready, hafter⟩, hgrows, ?_⟩
  rcases hsame with rfl | ⟨key, hkey, hkey'⟩
  · exact hw
  · have hsame := eq_of_key hunsigned (fun x hx => hafter x (hx ▸ Array.mem_of_getElem? hw)) hkey
      hkey'
    rwa [hsame] at hw

theorem lays_named {op : Opcode} {name : String} {span : Span} {item : Item} (hs : Sturdy s)
    (h : (do emit op [← addName name span] span : CompileM Item) s = .ok (item, s')) :
    Lays inLoop s s' [item] (named op name) := by
  obtain ⟨i, s₁, hname, hemit⟩ := bind_eq_ok.1 h
  obtain ⟨hready, hgrows, -, hi⟩ := addName_spec hs.ready hname
  obtain ⟨rfl, rfl, -⟩ := emit_eq_ok hemit
  have hunsigned := KeepsUnsigned.addName name span hs.unsigned hname
  exact ⟨⟨hready, hunsigned⟩, hgrows, fun f _ _ hf hlies =>
    ⟨i, ⟨hlies.1, rfl⟩, hf.names i name hi⟩⟩

theorem lays_access {slot free global top : Opcode} {name : String} {symbol : Symbol} {span : Span}
    {item : Item} (hs : Sturdy s) (hsymbol : SymbolAt s name symbol)
    (h : accessSymbol slot free global top symbol span s = .ok (item, s')) :
    Lays inLoop s s' [item] (access slot free global top name) := by
  obtain ⟨scope, outer, hscopes, hmeans⟩ := hsymbol
  cases symbol with
  | slot i =>
    obtain ⟨rfl, rfl, -⟩ := emit_eq_ok h
    exact ⟨hs, .refl _, fun f _ _ hf hlies => ⟨slot, i, ⟨hlies.1, rfl⟩,
      .inl ⟨rfl, hf.variableName? (Scope.Holds.draft (c := .slot i) hscopes hmeans)⟩⟩⟩
  | free i =>
    obtain ⟨rfl, rfl, -⟩ := emit_eq_ok h
    exact ⟨hs, .refl _, fun f _ _ hf hlies => ⟨free, i, ⟨hlies.1, rfl⟩,
      .inr (.inl ⟨rfl, hf.variableName? (Scope.Holds.draft (c := .free i) hscopes hmeans)⟩)⟩⟩
  | global n =>
    obtain ⟨rfl, hkind⟩ := hmeans
    have hlays : Lays inLoop s s' [item] (named global n) := lays_named hs h
    refine ⟨hlays.sturdy, hlays.grows, fun f exits pos hf hlies => ?_⟩
    obtain ⟨i, hhas, hi⟩ := hlays.laid f exits pos hf hlies
    refine ⟨global, i, hhas, .inr (.inr (.inl ⟨rfl, ?_, hi⟩))⟩
    rw [(hf.mono hlays.grows).tables.kind, draft_kind hscopes, hkind]
  | name n =>
    obtain ⟨rfl, hkind⟩ := hmeans
    have hlays : Lays inLoop s s' [item] (named top n) := lays_named hs h
    refine ⟨hlays.sturdy, hlays.grows, fun f exits pos hf hlies => ?_⟩
    obtain ⟨i, hhas, hi⟩ := hlays.laid f exits pos hf hlies
    refine ⟨top, i, hhas, .inr (.inr (.inr ⟨rfl, ?_, hi⟩))⟩
    rw [(hf.mono hlays.grows).tables.kind, draft_kind hscopes, hkind]

theorem lays_store {name : String} {symbol : Symbol} {span : Span} {item : Item} (hs : Sturdy s)
    (hsymbol : SymbolAt s name symbol) (h : storeSymbol symbol span s = .ok (item, s')) :
    Lays inLoop s s' [item] (store name) := by
  rw [storeSymbol_eq] at h
  exact lays_access hs hsymbol h

/-! ## Functions -/

theorem makeCell_eq_ok {v : FreeVariable} {span : Span} {item : Item}
    (h : makeCell v span s = .ok (item, s')) :
    item = .op ⟨.makeCell, v.capture.operands⟩ ∧ s' = s := by
  unfold makeCell at h
  cases hc : v.capture with
  | slot i =>
    rw [hc] at h
    obtain ⟨rfl, rfl, -⟩ := emit_eq_ok h
    exact ⟨rfl, rfl⟩
  | free i =>
    rw [hc] at h
    obtain ⟨rfl, rfl, -⟩ := emit_eq_ok h
    exact ⟨rfl, rfl⟩

theorem lays_cells {captured : List FreeVariable} {span : Span} {items : List Item} (hs : Sturdy s)
    (hholds : ∀ v ∈ captured, s.draft.Holds v.name v.capture)
    (h : captured.mapM (fun v => makeCell v span) s = .ok (items, s')) :
    s' = s ∧ Lays inLoop s s items (cells captured) := by
  induction captured generalizing items with
  | nil =>
    obtain ⟨rfl, rfl⟩ := pure_eq_ok.1 h
    exact ⟨rfl, .nil hs⟩
  | cons v captured ih =>
    rw [List.mapM_cons] at h
    obtain ⟨item, s₁, hitem, hrest⟩ := bind_eq_ok.1 h
    obtain ⟨more, hmore, rfl⟩ := bind_pure_eq_ok.1 hrest
    obtain ⟨rfl, rfl⟩ := makeCell_eq_ok hitem
    obtain ⟨rfl, hlays⟩ := ih (fun w hw => hholds w (List.mem_cons_of_mem _ hw)) hmore
    have hfirst : Lays inLoop s' s' [.op ⟨.makeCell, v.capture.operands⟩] (cell v) :=
      ⟨hs, .refl s', fun f _ _ hf hlies =>
        ⟨⟨hlies.1, rfl⟩, hf.variableName? (hholds v List.mem_cons_self)⟩⟩
    exact ⟨rfl, hfirst.append hlays⟩

theorem lays_closure {g : Routine Value} {span : Span} {code : Fragment} (hs : Sturdy s)
    (hg : Compiled g) (hfeeds : s.draft.Feeds g) (h : loadFunction g span s = .ok (code, s')) :
    Lays inLoop s s' code.toList (closure g) := by
  have hyields := loadFunction_yields 0 hs.ready hg hfeeds h
  have hs' : Sturdy s' := ⟨hyields.ready, KeepsUnsigned.loadFunction g span hs.unsigned h⟩
  unfold loadFunction at h
  obtain ⟨i, s₁, hadd, hrest⟩ := bind_eq_ok.1 h
  obtain ⟨hready, hgrows, -, w, hw, hsame⟩ := addConstant_spec hs.ready rfl
    (fun g' hg' => by cases hg'; exact ⟨hg, hfeeds⟩) hadd
  have hconstant : s₁.pools.constants[i]? = some (.function g) := by
    rcases hsame with rfl | ⟨key, hkey, -⟩
    · exact hw
    · cases hkey
  split at hrest
  · rename_i hempty
    obtain ⟨item, hitem, rfl⟩ := bind_pure_eq_ok.1 hrest
    obtain ⟨rfl, rfl, -⟩ := emit_eq_ok hitem
    refine ⟨hs', hgrows, fun f _ _ hf hlies => ⟨i, hf.tables.constants i _ hconstant, ?_⟩⟩
    rw [if_pos hempty]
    exact ⟨hlies.1, rfl⟩
  · rename_i hempty
    obtain ⟨gathered, s₂, hgathered, hclosure⟩ := bind_eq_ok.1 hrest
    obtain ⟨item, hitem, rfl⟩ := bind_pure_eq_ok.1 hclosure
    obtain ⟨rfl, rfl, -⟩ := emit_eq_ok hitem
    have hs₁ : Sturdy s₁ :=
      ⟨hready, KeepsUnsigned.addConstant (v := .function g) nofun span hs.unsigned hadd⟩
    have hholds : ∀ v ∈ g.freeVariables.toList, s₁.draft.Holds v.name v.capture :=
      fun v hv => (hfeeds v (Array.mem_toList_iff.1 hv)).mono hgrows.draft
    obtain ⟨rfl, hcells⟩ :
        s' = s₁ ∧ Lays inLoop s₁ s₁ gathered.toList (cells g.freeVariables.toList) :=
      lays_cells hs₁ hholds (mapM_eq_ok.1 hgathered)
    have hlays := hcells.append (.op hs₁ ⟨.loadClosure, [i, g.freeVariables.size]⟩)
    rw [Array.toList_push]
    refine ⟨hs', hgrows, fun f exits pos hf hlies => ⟨i, hf.tables.constants i _ hconstant, ?_⟩⟩
    rw [if_neg hempty]
    exact hlays.laid f exits pos hf hlies

end

/-! ## What parts of the compiler lay out -/

/-- The code is laid out as `P` says. -/
def LaysOut (inLoop : Bool) (x : CompileM Fragment) (P : Layout) : Prop :=
  ∀ ⦃s s' : CompileState⦄ ⦃code : Fragment⦄, Sturdy s → x s = .ok (code, s') →
    Lays inLoop s s' code.toList P

/-- The code that is added is laid out as `P` says. -/
def LaysOutMore (inLoop : Bool) (x : Fragment → CompileM Fragment) (P : Layout) : Prop :=
  ∀ ⦃s s' : CompileState⦄ ⦃code code' : Fragment⦄, Sturdy s → x code s = .ok (code', s') →
    ∃ more, code'.toList = code.toList ++ more ∧ Lays inLoop s s' more P

section
variable {inLoop : Bool} {x y z : CompileM Fragment} {xs : Fragment → CompileM Fragment}
  {P Q R : Layout}

theorem LaysOutMore.laysOut (h : LaysOutMore inLoop xs P) : LaysOut inLoop (xs #[]) P := by
  intro s s' code hs hxs
  obtain ⟨more, hmore, hlays⟩ := h hs hxs
  rwa [hmore, List.nil_append]

theorem laysOut_literal {v : Value} (span : Span) (hv : v.isConstant = true)
    (hf : ∀ g, v ≠ .function g) (hunsigned : ∀ x, v = .float x → Unsigned x) :
    LaysOut inLoop (loadConstant v span) (constant v) := by
  intro s s' code hs h
  obtain ⟨i, s₁, hadd, h₁⟩ := bind_eq_ok.1 h
  obtain ⟨item, hitem, rfl⟩ := bind_pure_eq_ok.1 h₁
  obtain ⟨rfl, rfl, -⟩ := emit_eq_ok hitem
  obtain ⟨hs', hgrows, hi⟩ := addConstant_sturdy hs hv hf hunsigned hadd
  exact ⟨hs', hgrows, fun f _ _ hf hlies =>
    ⟨i, ⟨hlies.1, rfl⟩, hf.tables.constants i v hi⟩⟩

theorem laysOut_op (ins : Instruction) :
    LaysOut inLoop (pure #[.op ins]) (instruction ins) := by
  intro s s' code hs h
  obtain ⟨rfl, rfl⟩ := pure_eq_ok.1 h
  exact .op hs ins

theorem laysOut_ident (span : Span) (name : String) :
    LaysOut inLoop (do return #[← loadSymbol (← resolve name) span]) (load name) := by
  intro s s' code hs h
  obtain ⟨symbol, s₁, hresolve, h₁⟩ := bind_eq_ok.1 h
  obtain ⟨item, hitem, rfl⟩ := bind_pure_eq_ok.1 h₁
  obtain ⟨hready, hgrows, hsymbol⟩ := resolve_spec hs.ready hresolve
  have hs₁ : Sturdy s₁ := ⟨hready, KeepsUnsigned.resolve name hs.unsigned hresolve⟩
  rw [loadSymbol_eq] at hitem
  exact (lays_access hs₁ hsymbol hitem).after hgrows

theorem laysOut_checked {count limit : Nat} {what : String} {span : Span}
    (hx : LaysOut inLoop x P) : LaysOut inLoop (do checkCount count what limit span; x) P := by
  intro s s' code hs h
  obtain ⟨u, s₁, hcount, h₁⟩ := bind_eq_ok.1 h
  obtain ⟨-, rfl⟩ := checkCount_eq_ok hcount
  exact hx hs h₁

/-- An instruction with one operand after the code of what it takes. -/
theorem laysOut_gather {op : Opcode} {count : Nat} {span : Span} (hx : LaysOut inLoop x P) :
    LaysOut inLoop (do return (← x).push (← emit op [count] span))
      (P.andThen (instruction ⟨op, [count]⟩)) := by
  intro s s' code hs h
  obtain ⟨values, s₁, hvalues, h₁⟩ := bind_eq_ok.1 h
  obtain ⟨item, hitem, rfl⟩ := bind_pure_eq_ok.1 h₁
  obtain ⟨rfl, rfl, -⟩ := emit_eq_ok hitem
  have hlays := hx hs hvalues
  rw [Array.toList_push]
  exact hlays.append (.op hlays.sturdy _)

theorem laysOut_unary (hx : LaysOut inLoop x P) (ins : Instruction) :
    LaysOut inLoop (do return (← x).push (.op ins)) (P.andThen (instruction ins)) := by
  intro s s' code hs h
  obtain ⟨operand, hoperand, rfl⟩ := bind_pure_eq_ok.1 h
  have hlays := hx hs hoperand
  rw [Array.toList_push]
  exact hlays.append (.op hlays.sturdy ins)

theorem laysOut_binary (hx : LaysOut inLoop x P) (hy : LaysOut inLoop y Q) (ins : Instruction) :
    LaysOut inLoop (do
      let first ← x
      let second ← y
      return (first ++ second).push (.op ins)) ((P.andThen Q).andThen (instruction ins)) := by
  intro s s' code hs h
  obtain ⟨first, s₁, hfirst, h₁⟩ := bind_eq_ok.1 h
  obtain ⟨second, hsecond, rfl⟩ := bind_pure_eq_ok.1 h₁
  have hlays := hx hs hfirst
  have hlays' := hy hlays.sturdy hsecond
  rw [Array.toList_push, Array.toList_append]
  exact (hlays.append hlays').append (.op hlays'.sturdy ins)

theorem laysOut_ternary (hx : LaysOut inLoop x P) (hy : LaysOut inLoop y Q)
    (hz : LaysOut inLoop z R) (ins : Instruction) :
    LaysOut inLoop (do
      let first ← x
      let second ← y
      let third ← z
      return (first ++ second ++ third).push (.op ins))
      (((P.andThen Q).andThen R).andThen (instruction ins)) := by
  intro s s' code hs h
  obtain ⟨first, s₁, hfirst, h₁⟩ := bind_eq_ok.1 h
  obtain ⟨second, s₂, hsecond, h₂⟩ := bind_eq_ok.1 h₁
  obtain ⟨third, hthird, rfl⟩ := bind_pure_eq_ok.1 h₂
  have hlays := hx hs hfirst
  have hlays' := hy hlays.sturdy hsecond
  have hlays'' := hz hlays'.sturdy hthird
  rw [Array.toList_push, Array.toList_append, Array.toList_append]
  exact ((hlays.append hlays').append hlays'').append (.op hlays''.sturdy ins)

/-- A call: the function, then its arguments. -/
theorem laysOut_call {k : Nat} {span : Span} (hx : LaysOut inLoop x P)
    (hxs : LaysOutMore inLoop xs Q) :
    LaysOut inLoop (do
      let code ← x
      let code ← xs code
      return code.push (← emit .call [k] span))
      ((P.andThen Q).andThen (instruction ⟨.call, [k]⟩)) := by
  intro s s' code hs h
  obtain ⟨callee, s₁, hcallee, h₁⟩ := bind_eq_ok.1 h
  obtain ⟨args, s₂, hargs, h₂⟩ := bind_eq_ok.1 h₁
  obtain ⟨item, hitem, rfl⟩ := bind_pure_eq_ok.1 h₂
  obtain ⟨rfl, rfl, -⟩ := emit_eq_ok hitem
  have hlays := hx hs hcallee
  obtain ⟨more, hmore, hlays'⟩ := hxs hlays.sturdy hargs
  rw [Array.toList_push, hmore]
  exact (hlays.append hlays').append (.op hlays'.sturdy _)

theorem laysOut_attr (hx : LaysOut inLoop x P) (op : Opcode) (name : String) (span : Span) :
    LaysOut inLoop (do
      let code ← x
      return code.push (← emit op [← addName name span] span)) (P.andThen (named op name)) := by
  intro s s' code hs h
  obtain ⟨object, s₁, hobject, h₁⟩ := bind_eq_ok.1 h
  rw [← bind_assoc] at h₁
  obtain ⟨item, hitem, rfl⟩ := bind_pure_eq_ok.1 h₁
  have hlays := hx hs hobject
  rw [Array.toList_push]
  exact hlays.append (lays_named hlays.sturdy hitem)

theorem laysOut_storeAttr (hx : LaysOut inLoop x P) (hy : LaysOut inLoop y Q) (name : String)
    (span : Span) :
    LaysOut inLoop (do
      let first ← x
      let second ← y
      return (first ++ second).push (← emit .storeAttr [← addName name span] span))
      ((P.andThen Q).andThen (named .storeAttr name)) := by
  intro s s' code hs h
  obtain ⟨first, s₁, hfirst, h₁⟩ := bind_eq_ok.1 h
  obtain ⟨second, s₂, hsecond, h₂⟩ := bind_eq_ok.1 h₁
  rw [← bind_assoc] at h₂
  obtain ⟨item, hitem, rfl⟩ := bind_pure_eq_ok.1 h₂
  have hlays := hx hs hfirst
  have hlays' := hy hlays.sturdy hsecond
  rw [Array.toList_push, Array.toList_append]
  exact (hlays.append hlays').append (lays_named hlays'.sturdy hitem)

/-- The code of a function lies in the function, where no loop is around it. -/
theorem laysOut_function (hruns : Runs false x) (hx : LaysOut false x P) (name : String)
    (params : List String) (span : Span) :
    LaysOut inLoop (compileFunction name params span x) (function name params P) := by
  intro s s' code hs h
  obtain ⟨scope, inner, s₁, s₂, hready, hinner, hkind, hready₂, hgrows, hpools, -, hcompiled,
    hfeeds, hload⟩ := compileFunction_eq_ok hs.ready (fun _ _ _ hs₁ h₁ => hruns hs₁ h₁) h
  have hyields := hruns hready hinner
  have hlays := hx ⟨hready, fun x hx => absurd hx (Array.not_mem_empty _)⟩ hinner
  have hs₂ : Sturdy s₂ := ⟨hready₂, by rw [hpools]; exact hs.unsigned⟩
  have hclosure : Lays inLoop s s' code.toList (closure _) :=
    .after hgrows (lays_closure hs₂ hcompiled hfeeds hload)
  refine ⟨hclosure.sturdy, hclosure.grows, fun f exits pos hf hlies =>
    ⟨_, hclosure.laid f exits pos hf hlies, rfl, rfl, hkind, ?_⟩⟩
  obtain ⟨row, p, hplanned, hsize, hitems⟩ := planned_routine name params hkind hyields.flowing
    (hyields.closed rfl)
  have hcompletes : (s₁.routine name params inner).Completes s₁ :=
    ⟨extends_routine _ _ _ _, fun _ _ h => h, Nat.le_of_lt (freeVariables_lt_of_loadFunction hload)⟩
  have hlies' : LieAt (s₁.routine name params inner).code exits 0
      (inner.toList ++ [.op ⟨.returnValue, [0]⟩]) := hitems ▸ LieAt.of_decodes hplanned.decodes
  have hall := (hlays.append (.op hlays.sturdy _)).laid _ exits 0 hcompletes hlies'
  have hend : (s₁.routine name params inner).code.size =
      0 + itemsSize (inner.toList ++ [.op ⟨.returnValue, [0]⟩]) := by
    rw [hsize, ← hitems, Nat.zero_add, itemsSize, List.map_map]
    rfl
  rw [hend]
  exact hall

theorem laysOutMore_nil : LaysOutMore inLoop (fun code => pure code) nothing := by
  intro s s' code code' hs h
  obtain ⟨rfl, rfl⟩ := pure_eq_ok.1 h
  exact ⟨[], (List.append_nil _).symm, .nil hs⟩

theorem laysOutMore_cons (hx : LaysOut inLoop x P) (hxs : LaysOutMore inLoop xs Q) :
    LaysOutMore inLoop (fun code => do
      let more ← x
      xs (code ++ more)) (P.andThen Q) := by
  intro s s' code code' hs h
  obtain ⟨first, s₁, hfirst, h₁⟩ := bind_eq_ok.1 h
  have hlays := hx hs hfirst
  obtain ⟨more, hmore, hlays'⟩ := hxs hlays.sturdy h₁
  refine ⟨first.toList ++ more, ?_, hlays.append hlays'⟩
  rw [hmore, Array.toList_append, List.append_assoc]

theorem laysOutMore_entry (hx : LaysOut inLoop x P) (hy : LaysOut inLoop y Q)
    (hxs : LaysOutMore inLoop xs R) :
    LaysOutMore inLoop (fun code => do
      let first ← x
      let second ← y
      xs (code ++ first ++ second)) (P.andThen (Q.andThen R)) := by
  intro s s' code code' hs h
  obtain ⟨first, s₁, hfirst, h₁⟩ := bind_eq_ok.1 h
  obtain ⟨second, s₂, hsecond, h₂⟩ := bind_eq_ok.1 h₁
  have hlays := hx hs hfirst
  have hlays' := hy hlays.sturdy hsecond
  obtain ⟨more, hmore, hlays''⟩ := hxs hlays'.sturdy h₂
  refine ⟨first.toList ++ (second.toList ++ more), ?_, hlays.append (hlays'.append hlays'')⟩
  rw [hmore]
  simp

/-! ## Jumps -/

theorem Routine.jumps_forward {f : Routine Value} {op : Opcode} {pos distance target : Nat}
    (hdecoded : decode f.code pos = .ok ⟨op, [distance]⟩) (hjump : op.isJump = true)
    (hforward : op.isBackward = false) (htarget : target = pos + 3 + distance) :
    f.Jumps op pos target (pos + 3) := by
  have hsize : Instruction.size ⟨op, [distance]⟩ = 3 := by cases op <;> first | rfl | cases hjump
  refine ⟨distance, ⟨hdecoded, by rw [hsize]⟩, ?_⟩
  rw [Instruction.target?_forward hjump hforward, htarget]

theorem Routine.jumps_backward {f : Routine Value} {op : Opcode} {pos distance target : Nat}
    (hdecoded : decode f.code pos = .ok ⟨op, [distance]⟩) (hjump : op.isJump = true)
    (hback : op.isBackward = true) (htarget : target + distance = pos + 3) :
    f.Jumps op pos target (pos + 3) := by
  have hsize : Instruction.size ⟨op, [distance]⟩ = 3 := by cases op <;> first | rfl | cases hjump
  refine ⟨distance, ⟨hdecoded, by rw [hsize]⟩, ?_⟩
  rw [Instruction.target?_backward hjump hback (by omega)]
  congr 1
  omega

theorem laysOut_connective (hx : LaysOut inLoop x P) (hy : LaysOut inLoop y Q) (op : Connective)
    (span : Span) :
    LaysOut inLoop (do
      let first ← x
      let second ← y
      joinConnective op first second span) (connective op P Q) := by
  intro s s' code hs h
  obtain ⟨first, s₁, hfirst, h₁⟩ := bind_eq_ok.1 h
  obtain ⟨second, s₂, hsecond, h₂⟩ := bind_eq_ok.1 h₁
  have hlays := hx hs hfirst
  have hlays' := hy hlays.sturdy hsecond
  obtain ⟨rfl, -, hcode⟩ := joinConnective_eq_ok h₂
  rw [hcode]
  refine ⟨hlays'.sturdy, hlays.grows.trans hlays'.grows, fun f exits pos hf hlies => ?_⟩
  have hjump : ∀ d, (jumpOver op.jump d).size = 3 := by cases op <;> exact fun d => rfl
  have hundecided : Item.size (.op ⟨op.undecided, []⟩) = 1 := by cases op <;> rfl
  have hdecided : Item.size (.op ⟨op.decided, []⟩) = 1 := by cases op <;> rfl
  have hisJump : op.jump.isJump = true := by cases op <;> rfl
  have hisForward : op.jump.isBackward = false := by cases op <;> rfl
  obtain ⟨hleft, htest, hrest⟩ := lieAt_append.1 hlies
  rw [hjump] at hrest
  obtain ⟨hright, htest', hno, hpast, hyes, -⟩ := lieAt_append.1 hrest
  rw [hjump] at hno hpast hyes
  rw [hundecided] at hpast hyes
  rw [size_jumpOver_forward] at hyes
  have hend : pos + itemsSize (op.items first.toList second.toList) =
      pos + itemsSize first.toList + 3 + itemsSize second.toList + 3 + 1 + 3 + 1 := by
    simp only [Connective.items, itemsSize_append, itemsSize_cons, hjump, hdecided, hundecided,
      itemsSize_nil, size_jumpOver_forward]
    omega
  rw [hend]
  exact ⟨_, _, _, _, _, _, hlays.laid f exits pos (hf.mono hlays'.grows) hleft,
    Routine.jumps_forward htest hisJump hisForward (by omega), hlays'.laid f exits _ hf hright,
    Routine.jumps_forward htest' hisJump hisForward (by omega), ⟨hno, congrArg _ hundecided.symm⟩,
    Routine.jumps_forward hpast rfl rfl (by omega), hyes, congrArg _ hdecided.symm⟩

theorem laysOut_conditional (hx : LaysOut inLoop x P) (hy : LaysOut inLoop y Q) (span : Span) :
    LaysOut inLoop (do
      let test ← x
      let first ← y
      let skip ← emitJump .popJumpForwardIfFalse first.byteSize span
      return test.push skip ++ first) (conditional P Q) := by
  intro s s' code hs h
  obtain ⟨test, s₁, htest, h₁⟩ := bind_eq_ok.1 h
  obtain ⟨first, s₂, hfirst, h₂⟩ := bind_eq_ok.1 h₁
  obtain ⟨skip, hskip, rfl⟩ := bind_pure_eq_ok.1 h₂
  obtain ⟨rfl, rfl, -⟩ := emitJump_eq_ok hskip
  have hlays := hx hs htest
  have hlays' := hy hlays.sturdy hfirst
  rw [Fragment.byteSize_eq, Array.toList_append, Array.toList_push, List.append_assoc,
    List.singleton_append]
  refine ⟨hlays'.sturdy, hlays.grows.trans hlays'.grows, fun f exits pos hf hlies => ?_⟩
  obtain ⟨hcond, hjump, hbody⟩ := lieAt_append.1 hlies
  rw [size_jumpOver_ifFalse] at hbody
  rw [show pos + itemsSize (test.toList ++ jumpOver .popJumpForwardIfFalse
    (itemsSize first.toList) :: first.toList) =
    pos + itemsSize test.toList + 3 + itemsSize first.toList by simp; omega]
  exact ⟨_, _, hlays.laid f exits pos (hf.mono hlays'.grows) hcond,
    Routine.jumps_forward hjump rfl rfl rfl, hlays'.laid f exits _ hf hbody⟩

theorem laysOut_alternative (hx : LaysOut inLoop x P) (hy : LaysOut inLoop y Q)
    (hz : LaysOut inLoop z R) (span : Span) :
    LaysOut inLoop (do
      let test ← x
      let first ← y
      let toElse ← emitJump .popJumpForwardIfFalse (first.byteSize + 3) span
      let second ← z
      let toEnd ← emitJump .jumpForward second.byteSize span
      return (test.push toElse ++ first).push toEnd ++ second) (alternative P Q R) := by
  intro s s' code hs h
  obtain ⟨test, s₁, htest, h₁⟩ := bind_eq_ok.1 h
  obtain ⟨first, s₂, hfirst, h₂⟩ := bind_eq_ok.1 h₁
  obtain ⟨toElse, s₃, htoElse, h₃⟩ := bind_eq_ok.1 h₂
  obtain ⟨rfl, rfl, -⟩ := emitJump_eq_ok htoElse
  obtain ⟨second, s₄, hsecond, h₄⟩ := bind_eq_ok.1 h₃
  obtain ⟨toEnd, htoEnd, rfl⟩ := bind_pure_eq_ok.1 h₄
  obtain ⟨rfl, rfl, -⟩ := emitJump_eq_ok htoEnd
  have hlays := hx hs htest
  have hlays' := hy hlays.sturdy hfirst
  have hlays'' := hz hlays'.sturdy hsecond
  have hitems : ((test.push (jumpOver .popJumpForwardIfFalse (Fragment.byteSize first + 3)) ++
      first).push (jumpOver .jumpForward (Fragment.byteSize second)) ++ second).toList =
      test.toList ++ jumpOver .popJumpForwardIfFalse (itemsSize first.toList + 3) ::
        (first.toList ++ jumpOver .jumpForward (itemsSize second.toList) :: second.toList) := by
    rw [Fragment.byteSize_eq, Fragment.byteSize_eq]
    simp
  rw [hitems]
  refine ⟨hlays''.sturdy, (hlays.grows.trans hlays'.grows).trans hlays''.grows,
    fun f exits pos hf hlies => ?_⟩
  obtain ⟨hcond, hjump, hrest⟩ := lieAt_append.1 hlies
  rw [size_jumpOver_ifFalse] at hrest
  obtain ⟨hbody, hpast, hother⟩ := lieAt_append.1 hrest
  rw [size_jumpOver_forward] at hother
  rw [show pos + itemsSize (test.toList ++ jumpOver .popJumpForwardIfFalse
    (itemsSize first.toList + 3) :: (first.toList ++ jumpOver .jumpForward
    (itemsSize second.toList) :: second.toList)) = pos + itemsSize test.toList + 3 +
      itemsSize first.toList + 3 + itemsSize second.toList by simp; omega]
  have hf₂ := hf.mono hlays''.grows
  exact ⟨_, _, _, _, hlays.laid f exits pos (hf₂.mono hlays'.grows) hcond,
    Routine.jumps_forward hjump rfl rfl (by omega), hlays'.laid f exits _ hf₂ hbody,
    Routine.jumps_forward hpast rfl rfl rfl, hlays''.laid f exits _ hf hother⟩

/-- The holes of the body lead to the ends of this loop, whatever loop is around it. -/
theorem laysOut_loop (hx : LaysOut inLoop x P) (hy : LaysOut true y Q) (span : Span) :
    LaysOut inLoop (do
      let inner ← y
      let bodySize := inner.byteSize
      let toTest ← emitJump .jumpForward bodySize span
      let test ← x
      let tail := test.byteSize + 3
      let again ← emit .popJumpBackwardIfTrue [bodySize + tail] span
      return (#[toTest] ++ inner.closeLoop bodySize tail ++ test).push again) (loop P Q) := by
  intro s s' code hs h
  obtain ⟨inner, s₁, hinner, h₁⟩ := bind_eq_ok.1 h
  obtain ⟨toTest, s₂, htoTest, h₂⟩ := bind_eq_ok.1 h₁
  obtain ⟨rfl, rfl, -⟩ := emitJump_eq_ok htoTest
  obtain ⟨test, s₃, htest, h₃⟩ := bind_eq_ok.1 h₂
  obtain ⟨again, hagain, rfl⟩ := bind_pure_eq_ok.1 h₃
  obtain ⟨rfl, rfl, -⟩ := emit_eq_ok hagain
  have hlays := hy hs hinner
  have hlays' := hx hlays.sturdy htest
  rw [toList_loop]
  refine ⟨hlays'.sturdy, hlays.grows.trans hlays'.grows, fun f exits pos hf hlies => ?_⟩
  obtain ⟨henter, hrest⟩ := hlies
  rw [size_jumpOver_forward] at hrest
  obtain ⟨hbody, hrest⟩ := lieAt_append.1 hrest
  rw [itemsSize_closeItems] at hrest
  obtain ⟨hcond, hagain, -⟩ := lieAt_append.1 hrest
  have hbody' : LieAt f.code (loopExits (pos + 3) (itemsSize inner.toList)
      (itemsSize test.toList + 3)) (pos + 3) inner.toList :=
    LieAt.of_closed hbody (Nat.le_of_eq (Nat.zero_add _))
  have hend : pos + itemsSize (loopItems inner.toList test.toList) =
      pos + 3 + itemsSize inner.toList + itemsSize test.toList + 3 := by
    rw [itemsSize_loopItems]
    omega
  have hexits : openExits true (loopExits (pos + 3) (itemsSize inner.toList)
      (itemsSize test.toList + 3)) = fun
        | .break => some (pos + itemsSize (loopItems inner.toList test.toList))
        | .continue => some (pos + 3 + itemsSize inner.toList) := by
    funext way
    cases way with
    | «break» =>
      rw [hend]
      show some (pos + 3 + (itemsSize inner.toList + (itemsSize test.toList + 3))) = _
      congr 1
      omega
    | «continue» => rfl
  have hlaid := hlays.laid f _ _ (hf.mono hlays'.grows) hbody'
  rw [hexits] at hlaid
  refine ⟨_, _, _, Routine.jumps_forward henter rfl rfl rfl, hlaid, hlays'.laid f exits _ hf hcond,
    ?_⟩
  rw [hend]
  exact Routine.jumps_backward hagain rfl rfl (by omega)

theorem laysOut_exit (way : LoopExit) (fault : CompileFault) (span : Span) :
    LaysOut inLoop (if inLoop then pure #[.hole way] else fail fault span) (Layout.exit way) := by
  intro s s' code hs h
  split at h
  · rename_i hloop
    obtain ⟨rfl, rfl⟩ := pure_eq_ok.1 h
    refine ⟨hs, .refl s, fun f exits pos _ hlies => ?_⟩
    obtain ⟨⟨distance, hdecoded, htarget⟩, -⟩ := hlies
    exact ⟨exits way, by rw [openExits, if_pos hloop],
      Routine.jumps_forward hdecoded rfl rfl htarget⟩
  · exact absurd h fail_ne_ok

/-! ## Statements -/

theorem Finds.sturdy {y : CompileM Symbol} {name : String} {s s' : CompileState} {symbol : Symbol}
    (hy : Finds y name) (hunsigned : KeepsUnsigned y) (hs : Sturdy s)
    (h : y s = .ok (symbol, s')) : Sturdy s' ∧ Grows s s' ∧ SymbolAt s' name symbol := by
  obtain ⟨hready, hgrows, hsymbol⟩ := hy hs.ready h
  exact ⟨⟨hready, hunsigned hs.unsigned h⟩, hgrows, hsymbol⟩

/-- The name is found after the value. -/
theorem laysOut_store {y : CompileM Symbol} {name : String} (hx : LaysOut inLoop x P)
    (hy : Finds y name) (hunsigned : KeepsUnsigned y) (span : Span) :
    LaysOut inLoop (do
      let code ← x
      let symbol ← y
      return code.push (← storeSymbol symbol span)) (P.andThen (store name)) := by
  intro s s' code hs h
  obtain ⟨value, s₁, hvalue, h₁⟩ := bind_eq_ok.1 h
  obtain ⟨symbol, s₂, hsymbol, h₂⟩ := bind_eq_ok.1 h₁
  obtain ⟨item, hitem, rfl⟩ := bind_pure_eq_ok.1 h₂
  have hlays := hx hs hvalue
  obtain ⟨hs₂, hgrows, hat⟩ := hy.sturdy hunsigned hlays.sturdy hsymbol
  rw [Array.toList_push]
  exact hlays.append ((lays_store hs₂ hat hitem).after hgrows)

/-- The name is found before the value. -/
theorem laysOut_storeTo {y : CompileM Symbol} {name : String} (hx : LaysOut inLoop x P)
    (hy : Finds y name) (hunsigned : KeepsUnsigned y) (span : Span) :
    LaysOut inLoop (do
      let symbol ← y
      let code ← x
      return code.push (← storeSymbol symbol span)) (P.andThen (store name)) := by
  intro s s' code hs h
  obtain ⟨symbol, s₁, hsymbol, h₁⟩ := bind_eq_ok.1 h
  obtain ⟨value, s₂, hvalue, h₂⟩ := bind_eq_ok.1 h₁
  obtain ⟨item, hitem, rfl⟩ := bind_pure_eq_ok.1 h₂
  obtain ⟨hs₁, hgrows, hat⟩ := hy.sturdy hunsigned hs hsymbol
  have hlays := hx hs₁ hvalue
  rw [Array.toList_push]
  exact (hlays.append (lays_store hlays.sturdy (hat.mono hlays.grows) hitem)).after hgrows

theorem laysOut_inFunction (hx : LaysOut inLoop x P) (fault : CompileFault) (span : Span) :
    LaysOut inLoop (do if ← inFunction then x else fail fault span) P := by
  intro s s' code hs h
  obtain ⟨b, s₁, hb, h₁⟩ := bind_eq_ok.1 h
  obtain ⟨rfl, -⟩ := inFunction_eq_ok hb
  split at h₁
  · exact hx hs h₁
  · exact absurd h₁ fail_ne_ok

theorem laysOut_fail (fault : CompileFault) (span : Span) : LaysOut inLoop (fail fault span) P :=
  fun _ _ _ _ h => absurd h fail_ne_ok

end

/-! ## Programs -/

section
variable {builtins : Std.HashSet String}

mutual

theorem compileExpr_laysOut (inLoop : Bool) : ∀ e : Expr, e.Unsigned →
    LaysOut inLoop (compileExpr builtins e) e.layout
  | .int span n, _ => laysOut_literal span rfl nofun (fun _ hx => by cases hx)
  | .float span x, h => laysOut_literal span rfl nofun (fun _ hx => by cases hx; exact h)
  | .str span s, _ => laysOut_literal span rfl nofun (fun _ hx => by cases hx)
  | .bool _ true, _ | .bool _ false, _ | .nil _, _ => laysOut_op _
  | .ident span name, _ => laysOut_ident span name
  | .list _ items, h | .set _ items, h =>
    laysOut_checked (laysOut_gather (compileExprs_laysOut inLoop items h).laysOut)
  | .map _ entries, h =>
    laysOut_checked (laysOut_gather (compileEntries_laysOut inLoop entries h).laysOut)
  | .unary _ op operand, h => laysOut_unary (compileExpr_laysOut inLoop operand h) _
  | .binary _ op left right, h =>
    laysOut_binary (compileExpr_laysOut inLoop left h.1) (compileExpr_laysOut inLoop right h.2) _
  | .logical span op left right, h =>
    laysOut_connective (compileExpr_laysOut inLoop left h.1)
      (compileExpr_laysOut inLoop right h.2) op span
  | .call _ callee args, h =>
    laysOut_checked (laysOut_call (compileExpr_laysOut inLoop callee h.1)
      (compileExprs_laysOut inLoop args h.2))
  | .index _ object key, h =>
    laysOut_binary (compileExpr_laysOut inLoop object h.1) (compileExpr_laysOut inLoop key h.2) _
  | .attr span object name, h => laysOut_attr (compileExpr_laysOut inLoop object h) _ name span
  | .func span params body, h =>
    laysOut_function (compileStmts_runs false body).runs (compileStmts_laysOut false body h).laysOut
      anonymous params span

theorem compileExprs_laysOut (inLoop : Bool) : ∀ items : List Expr, AllUnsigned items →
    LaysOutMore inLoop (compileExprs builtins items) (itemsLayout items)
  | [], _ => laysOutMore_nil
  | e :: rest, h =>
    laysOutMore_cons (compileExpr_laysOut inLoop e h.1) (compileExprs_laysOut inLoop rest h.2)

theorem compileEntries_laysOut (inLoop : Bool) : ∀ entries : List (Expr × Expr),
    EntriesUnsigned entries →
    LaysOutMore inLoop (compileEntries builtins entries) (entriesLayout entries)
  | [], _ => laysOutMore_nil
  | (k, v) :: rest, h =>
    laysOutMore_entry (compileExpr_laysOut inLoop k h.1) (compileExpr_laysOut inLoop v h.2.1)
      (compileEntries_laysOut inLoop rest h.2.2)

theorem compileStmt_laysOut (inLoop : Bool) : ∀ st : Stmt, st.Unsigned →
    LaysOut inLoop (compileStmt builtins inLoop st) st.layout
  | .var span name value, h => by
    have hvalue : LaysOut inLoop (compileExpr builtins value) value.layout :=
      compileExpr_laysOut inLoop value h
    cases value with
    | func funcSpan params body =>
      exact laysOut_storeTo (laysOut_function (compileStmts_runs false body).runs
        (compileStmts_laysOut false body h).laysOut name params funcSpan)
        (fun _ _ _ hs h => declare_spec hs h) (.declare builtins name span) span
    | _ =>
      exact laysOut_store hvalue (fun _ _ _ hs h => declare_spec hs h)
        (.declare builtins name span) span
  | .assign span (.ident targetSpan name) value, h => by
    have hvalue : LaysOut inLoop (compileExpr builtins value) value.layout :=
      compileExpr_laysOut inLoop value h.2
    cases value with
    | func funcSpan params body =>
      exact laysOut_storeTo (laysOut_function (compileStmts_runs false body).runs
        (compileStmts_laysOut false body h.2).laysOut name params funcSpan)
        (fun _ _ _ hs h => assignmentTarget_spec hs h)
        (.assignmentTarget builtins name targetSpan) span
    | _ =>
      exact laysOut_storeTo hvalue (fun _ _ _ hs h => assignmentTarget_spec hs h)
        (.assignmentTarget builtins name targetSpan) span
  | .assign _ (.index _ object key) value, h =>
    laysOut_ternary (compileExpr_laysOut inLoop value h.2)
      (compileExpr_laysOut inLoop object h.1.1) (compileExpr_laysOut inLoop key h.1.2) _
  | .assign span (.attr _ object name) value, h =>
    laysOut_storeAttr (compileExpr_laysOut inLoop value h.2)
      (compileExpr_laysOut inLoop object h.1) name span
  | .assign _ (.int ..) _, _ | .assign _ (.float ..) _, _ | .assign _ (.str ..) _, _
  | .assign _ (.bool ..) _, _ | .assign _ (.nil ..) _, _ | .assign _ (.list ..) _, _
  | .assign _ (.map ..) _, _ | .assign _ (.set ..) _, _ | .assign _ (.unary ..) _, _
  | .assign _ (.binary ..) _, _ | .assign _ (.logical ..) _, _ | .assign _ (.call ..) _, _
  | .assign _ (.func ..) _, _ => laysOut_fail .invalidTarget _
  | .funcDef span name params body, h =>
    laysOut_storeTo (laysOut_function (compileStmts_runs false body).runs
      (compileStmts_laysOut false body h).laysOut name params span)
      (fun _ _ _ hs h => declare_spec hs h) (.declare builtins name span) span
  | .return span none, _ => laysOut_inFunction (laysOut_op _) _ span
  | .return span (some value), h =>
    laysOut_inFunction (laysOut_unary (compileExpr_laysOut inLoop value h) _) _ span
  | .if span cond thenBody none, h =>
    laysOut_conditional (compileExpr_laysOut inLoop cond h.1)
      (compileStmts_laysOut inLoop thenBody h.2).laysOut span
  | .if span cond thenBody (some elseBody), h =>
    laysOut_alternative (compileExpr_laysOut inLoop cond h.1)
      (compileStmts_laysOut inLoop thenBody h.2.1).laysOut
      (compileStmts_laysOut inLoop elseBody h.2.2).laysOut span
  | .while span cond body, h =>
    laysOut_loop (compileExpr_laysOut inLoop cond h.1)
      (compileStmts_laysOut true body h.2).laysOut span
  | .break span, _ => laysOut_exit .break _ span
  | .continue span, _ => laysOut_exit .continue _ span
  | .print _ value, h | .expr _ value, h => laysOut_unary (compileExpr_laysOut inLoop value h) _
  | .delete _ object key, h =>
    laysOut_binary (compileExpr_laysOut inLoop object h.1) (compileExpr_laysOut inLoop key h.2) _

theorem compileStmts_laysOut (inLoop : Bool) : ∀ body : List Stmt, BodyUnsigned body →
    LaysOutMore inLoop (compileStmts builtins inLoop body) (bodyLayout body)
  | [], _ => laysOutMore_nil
  | st :: rest, h =>
    laysOutMore_cons (compileStmt_laysOut inLoop st h.1) (compileStmts_laysOut inLoop rest h.2)

end

theorem compileChunk_laysOut {statements : List Stmt} (h : BodyUnsigned statements) :
    LaysOutMore false (compileChunk builtins statements) (chunkLayout statements) := by
  intro s s' code code' hs hchunk
  fun_induction compileChunk builtins statements code generalizing s with
  | case1 code =>
    obtain ⟨rfl, rfl⟩ := pure_eq_ok.1 hchunk
    exact ⟨_, Array.toList_push, .op hs _⟩
  | case2 span value code =>
    obtain ⟨more, hmore, rfl⟩ := bind_pure_eq_ok.1 hchunk
    have hlays := compileExpr_laysOut false value h.1 hs hmore
    exact ⟨_, by rw [Array.toList_push, Array.toList_append, List.append_assoc],
      hlays.append (.op hlays.sturdy _)⟩
  | case3 st rest code hne ih =>
    obtain ⟨first, s₁, hfirst, h₁⟩ := bind_eq_ok.1 hchunk
    have hlays := compileStmt_laysOut false st h.1 hs hfirst
    obtain ⟨more, hmore, hlays'⟩ := ih first h.2 hlays.sturdy h₁
    refine ⟨first.toList ++ more, by rw [hmore, Array.toList_append, List.append_assoc], ?_⟩
    rw [chunkLayout]
    · exact hlays.append hlays'
    · exact hne

end

namespace Compiler

variable {c c' : Compiler} {p : Program} {range : CodeRange}

/-- The code of a program is laid out in the code of the session. -/
theorem compile_laidOut (hc : c.Sound) (hpools : c.pools.Unsigned) (hp : p.Unsigned)
    (h : c.compile p = .ok (range, c')) : p.LaidOut c'.main range := by
  obtain ⟨-, -, -, rfl, -⟩ := compile_eq_ok h
  obtain ⟨fragment, row, plan, hchunk, hsound, -, -, hitems, hplanned, hsize, -⟩ :=
    compile_planned hc h
  obtain ⟨more, hmore, hlays⟩ := compileChunk_laysOut hp ⟨hc, hpools⟩ hchunk
  obtain rfl : fragment.toList = more := hmore
  have hcompletes : c'.main.Completes c'.state :=
    ⟨extends_main hsound, fun _ _ h => h, Nat.zero_le _⟩
  have hlaid := hlays.laid c'.main (fun _ => 0) c.code.size hcompletes
    (by rw [hitems]; exact LieAt.of_decodes hplanned.decodes)
  have hend : c'.code.size = c.code.size + itemsSize fragment.toList := by
    rw [hsize, hitems, itemsSize, List.map_map]
    rfl
  unfold Program.LaidOut
  dsimp only
  rw [hend]
  exact hlaid

end Compiler

end Ember
