import Ember.Proofs.Compile.Constants
import Ember.Proofs.Evaluation.Control

/-! Compiled code plays the evaluation of what it was compiled from. Each construct has a lemma
about its parts, and the theorems follow the trees. -/
namespace Ember
set_option autoImplicit false

open CompileM

/-! ## States of the top level -/

/-- A program can be compiled in the state. -/
structure TopLevel (s : CompileState) : Prop where
  ready : Ready s
  top : ∃ scope, s.scopes = [scope]
  unsigned : s.pools.Unsigned

/-- The part of the compiler leads from states of the top level to such states. -/
def KeepsTop {α : Type} (x : CompileM α) : Prop :=
  ∀ ⦃s s' : CompileState⦄ ⦃a : α⦄, TopLevel s → x s = .ok (a, s') → TopLevel s' ∧ Grows s s'

/-- All tables of the state are tables of the function. -/
structure Routine.Covers (main : Routine Value) (s : CompileState) : Prop where
  constants : ∀ (i : Nat) (v : Value), s.pools.constants[i]? = some v → main.constants[i]? = some v
  names : ∀ (i : Nat) (n : String), s.pools.names.keys[i]? = some n → main.names[i]? = some n

theorem Routine.Covers.mono {main : Routine Value} {s s' : CompileState} (h : main.Covers s')
    (hgrows : Grows s s') : main.Covers s :=
  ⟨fun i v hv => h.constants i v (hgrows.constants i v hv),
    fun i n hn => h.names i n (hgrows.names i n hn)⟩

section
variable {s s' : CompileState}

theorem TopLevel.grown (h : TopLevel s) (hready : Ready s') (hgrows : Grows s s')
    (hunsigned : s'.pools.Unsigned) : TopLevel s' := by
  obtain ⟨scope, hscopes⟩ := h.top
  have hall := hgrows.scopes
  rw [hscopes] at hall
  obtain ⟨scope', rest, -, hrest, hscopes'⟩ := List.forall₂_cons_left_iff.1 hall
  rw [List.forall₂_nil_left_iff.1 hrest] at hscopes'
  exact ⟨hready, ⟨scope', hscopes'⟩, hunsigned⟩

/-- At the top level, a name stands for itself. -/
theorem TopLevel.symbol_eq (h : TopLevel s) {name : String} {symbol : Symbol}
    (hsymbol : SymbolAt s name symbol) : symbol = .name name := by
  obtain ⟨scope, hscopes⟩ := h.top
  obtain ⟨scope', outer, hscopes', hmeans⟩ := hsymbol
  rw [hscopes] at hscopes'
  cases hscopes'
  have hnested := h.ready.nested
  rw [hscopes] at hnested
  cases hnested with
  | top hkind hlocals hcaptured =>
    cases symbol with
    | slot i =>
      change scope.locals.keys[i]? = some name at hmeans
      rw [hlocals] at hmeans
      simp [OrderedMap.keys, OrderedMap.empty] at hmeans
    | free i =>
      have := hmeans.1
      rw [hcaptured] at this
      simp [OrderedMap.size, OrderedMap.empty] at this
    | global n =>
      have := hmeans.2
      rw [hkind] at this
      cases this
    | name n => rw [hmeans.1]

theorem Pushes.keepsTop {x : CompileM Fragment} (h : Pushes x) (hunsigned : KeepsUnsigned x) :
    KeepsTop x := by
  intro s s' code hs hx
  have hyields := h hs.ready hx 0
  exact ⟨hs.grown hyields.ready hyields.grows (hunsigned hs.unsigned hx), hyields.grows⟩

theorem PushesMany.keepsTop {x : Fragment → CompileM Fragment} {k : Nat} (h : PushesMany x k)
    (hunsigned : ∀ code, KeepsUnsigned (x code)) (code : Fragment) : KeepsTop (x code) := by
  intro s s' code' hs hx
  obtain ⟨more, -, hyields⟩ := h hs.ready hx
  have := hyields 0
  exact ⟨hs.grown this.ready this.grows (hunsigned code hs.unsigned hx), this.grows⟩

theorem Runs.keepsTop {x : CompileM Fragment} {inLoop : Bool} (h : Runs inLoop x)
    (hunsigned : KeepsUnsigned x) : KeepsTop x := by
  intro s s' code hs hx
  have hyields := h hs.ready hx
  exact ⟨hs.grown hyields.ready hyields.grows (hunsigned hs.unsigned hx), hyields.grows⟩

theorem RunsMany.keepsTop {x : Fragment → CompileM Fragment} {inLoop : Bool}
    (h : RunsMany inLoop x) (hunsigned : ∀ code, KeepsUnsigned (x code)) (code : Fragment) :
    KeepsTop (x code) := by
  intro s s' code' hs hx
  obtain ⟨more, -, hyields⟩ := h hs.ready hx
  exact ⟨hs.grown hyields.ready hyields.grows (hunsigned code hs.unsigned hx), hyields.grows⟩

end

/-! ## What compiled code plays -/

/-- The code plays the evaluation and pushes its value. -/
def Means (su : Surroundings) (x : CompileM Fragment) (y : Eval Value) : Prop :=
  ∀ ⦃s s' : CompileState⦄ ⦃code : Fragment⦄, TopLevel s → x s = .ok (code, s') →
    ∀ (main : Routine Value) (exits : LoopExit → Nat) (pos fuel : Nat) (st : Array Value),
      main.Covers s' → LieAt main.code exits pos code.toList →
      Plays su main fuel y pos st (Pushing (pos + itemsSize code.toList) st)

/-- The run goes on at `next`, with `n` values pushed. -/
def Gathering {α : Type} (values : α → List Value) (n next : Nat) (st : Array Value) (a : α)
    (ip : Nat) (stack : Array Value) : Prop :=
  (values a).length = n ∧ ip = next ∧ stack = st ++ (values a).toArray

/-- The code that is added plays the evaluation and pushes its values. -/
def MeansMany {α : Type} (su : Surroundings) (x : Fragment → CompileM Fragment) (y : Eval α)
    (values : α → List Value) (n : Nat) : Prop :=
  ∀ ⦃s s' : CompileState⦄ ⦃code code' : Fragment⦄, TopLevel s → x code s = .ok (code', s') →
    ∃ more, code'.toList = code.toList ++ more ∧
      ∀ (main : Routine Value) (exits : LoopExit → Nat) (pos fuel : Nat) (st : Array Value),
        main.Covers s' → LieAt main.code exits pos more →
        Plays su main fuel y pos st (Gathering values n (pos + itemsSize more) st)

/-- The code plays the execution of a statement. -/
def Does (su : Surroundings) (x : CompileM Fragment) (y : Nat → Eval Ending) : Prop :=
  ∀ ⦃s s' : CompileState⦄ ⦃code : Fragment⦄, TopLevel s → x s = .ok (code, s') →
    ∀ (main : Routine Value) (exits : LoopExit → Nat) (pos fuel : Nat),
      main.Covers s' → LieAt main.code exits pos code.toList →
      Plays su main fuel (y fuel) pos #[] (Exiting exits (pos + itemsSize code.toList))

/-- The code that is added plays the execution of statements. -/
def DoesMany (su : Surroundings) (x : Fragment → CompileM Fragment) (y : Nat → Eval Ending) :
    Prop :=
  ∀ ⦃s s' : CompileState⦄ ⦃code code' : Fragment⦄, TopLevel s → x code s = .ok (code', s') →
    ∃ more, code'.toList = code.toList ++ more ∧
      ∀ (main : Routine Value) (exits : LoopExit → Nat) (pos fuel : Nat),
        main.Covers s' → LieAt main.code exits pos more →
        Plays su main fuel (y fuel) pos #[] (Exiting exits (pos + itemsSize more))

/-! ## Expressions -/

section
variable {su : Surroundings} {builtins : Std.HashSet String}

/-- A constant that was found by its key is the one that was looked for. -/
theorem eq_of_key {v w : Value} {key : ConstantKey} (hv : ∀ x, v = .float x → Unsigned x)
    (hw : ∀ x, w = .float x → Unsigned x) (hkey : ConstantKey.ofValue? v = some key)
    (hkey' : ConstantKey.ofValue? w = some key) : w = v := by
  have hkind : ∀ u : Value, ConstantKey.ofValue? u = some key → match key with
      | .int n => u = .int n
      | .str s => u = .str s
      | .float _ => ∃ x, u = .float x := by
    intro u hu
    cases u with
    | int n =>
      cases hu
      rfl
    | str s =>
      cases hu
      rfl
    | float x =>
      unfold ConstantKey.ofValue? at hu
      dsimp only at hu
      split at hu
      · cases hu
      · cases hu
        exact ⟨x, rfl⟩
    | _ => cases hu
  have hv' := hkind v hkey
  have hw' := hkind w hkey'
  cases key with
  | int n => exact hw'.trans hv'.symm
  | str s => exact hw'.trans hv'.symm
  | float bits =>
    obtain ⟨x, rfl⟩ := hv'
    obtain ⟨y, rfl⟩ := hw'
    rw [ConstantKey.eq_of_ofValue? (hw y rfl) (hv x rfl) hkey' hkey]

variable (hsteps : su.settings.maxSteps = none)
include hsteps

theorem means_literal {v : Value} (span : Span) (hconstant : v.isConstant = true)
    (hfunction : ∀ g, v ≠ .function g) (hunsigned : ∀ x, v = .float x → Unsigned x) :
    Means su (loadConstant v span) (pure v) := by
  intro s s' code hs h main exits pos fuel st hcovers hlies
  obtain ⟨i, s₁, hadd, h₁⟩ := bind_eq_ok.1 h
  obtain ⟨item, hemit, rfl⟩ := bind_pure_eq_ok.1 h₁
  obtain ⟨rfl, rfl, -⟩ := emit_eq_ok hemit
  obtain ⟨-, -, -, w, hw, hsame⟩ := addConstant_spec hs.ready hconstant
    (fun g hg => absurd hg (hfunction g)) hadd
  have hafter := KeepsUnsigned.addConstant hunsigned span hs.unsigned hadd
  have hvalue : w = v := by
    rcases hsame with rfl | ⟨key, hkey, hkey'⟩
    · rfl
    · exact eq_of_key hunsigned (fun x hx => hafter x (hx ▸ Array.mem_of_getElem? hw)) hkey hkey'
  subst hvalue
  exact .loadConst hsteps (hcovers.constants i w hw) hlies.1

/-- One instruction that pushes a value of its own. -/
theorem means_op {op : Opcode} {v : Value}
    (hexecute : ∀ pos, Action.execute su pos ⟨op, []⟩ = Action.push v) (hhalt : op ≠ .halt) :
    Means su (pure #[.op ⟨op, []⟩]) (pure v) := by
  intro s s' code hs h main exits pos fuel st hcovers hlies
  obtain ⟨rfl, rfl⟩ := pure_eq_ok.1 h
  exact .literal hsteps hlies.1 (hexecute pos) hhalt

omit hsteps in
/-- At the top level, a variable is accessed by its name. -/
theorem accessSymbol_name {s s' : CompileState} {name : String} {symbol : Symbol} {span : Span}
    {item : Item} {slot free global top : Opcode} (hs : TopLevel s)
    (hsymbol : SymbolAt s name symbol)
    (h : accessSymbol slot free global top symbol span s = .ok (item, s')) :
    ∃ i, item = .op ⟨top, [i]⟩ ∧ s'.pools.names.keys[i]? = some name := by
  rw [hs.symbol_eq hsymbol] at h
  obtain ⟨i, s₁, hname, hemit⟩ := bind_eq_ok.1 h
  obtain ⟨-, -, -, hi⟩ := addName_spec hs.ready hname
  obtain ⟨rfl, rfl, -⟩ := emit_eq_ok hemit
  exact ⟨i, rfl, hi⟩

theorem means_ident (span : Span) (name : String) :
    Means su (do return #[← loadSymbol (← resolve name) span]) (Eval.load name) := by
  intro s s' code hs h main exits pos fuel st hcovers hlies
  obtain ⟨symbol, s₁, hresolve, h₁⟩ := bind_eq_ok.1 h
  obtain ⟨item, hitem, rfl⟩ := bind_pure_eq_ok.1 h₁
  obtain ⟨hs₁, hgrows, hsymbol⟩ := resolve_spec hs.ready hresolve
  have htop := hs.grown hs₁ hgrows (KeepsUnsigned.resolve name hs.unsigned hresolve)
  rw [loadSymbol_eq] at hitem
  obtain ⟨i, rfl, hi⟩ := accessSymbol_name htop hsymbol hitem
  exact .loadName hsteps (hcovers.names i name hi) hlies.1

omit hsteps in
theorem means_checked {x : CompileM Fragment} {y : Eval Value} {count limit : Nat} {what : String}
    {span : Span} (hx : Means su x y) : Means su (do checkCount count what limit span; x) y := by
  intro s s' code hs h
  obtain ⟨u, s₁, hcount, h₁⟩ := bind_eq_ok.1 h
  obtain ⟨-, rfl⟩ := checkCount_eq_ok hcount
  exact hx hs h₁

omit hsteps in
/-- A container is made of values that are pushed one after the other. -/
theorem means_gather {α : Type} {x : Fragment → CompileM Fragment} {y : Eval α}
    {values : α → List Value} {f : α → Eval Value} {op : Opcode} {count n : Nat} {span : Span}
    (hx : MeansMany su x y values n)
    (hf : ∀ (main : Routine Value) (pos fuel : Nat) (st : Array Value) (a : α),
      decode main.code pos = .ok ⟨op, [count]⟩ → (values a).length = n →
      Plays su main fuel (f a) pos (st ++ (values a).toArray)
        (Pushing (pos + Instruction.size ⟨op, [count]⟩) st)) :
    Means su (do return (← x #[]).push (← emit op [count] span)) (y >>= f) := by
  intro s s' code hs h main exits pos fuel st hcovers hlies
  obtain ⟨inner, s₁, hinner, h₁⟩ := bind_eq_ok.1 h
  obtain ⟨item, hitem, rfl⟩ := bind_pure_eq_ok.1 h₁
  obtain ⟨rfl, rfl, -⟩ := emit_eq_ok hitem
  obtain ⟨more, hmore, hplays⟩ := hx hs hinner
  rw [Array.toList_push, hmore, List.nil_append] at hlies ⊢
  obtain ⟨hfront, hlast, -⟩ := lieAt_append.1 hlies
  refine (hplays main exits pos fuel st hcovers hfront).bind fun a ip stack hgathered => ?_
  obtain ⟨hlength, rfl, rfl⟩ := hgathered
  rw [itemsSize_append, ← Nat.add_assoc]
  exact hf main _ fuel st a hlast hlength

omit hsteps in
/-- An instruction that takes the value of one operand. -/
theorem means_unary {x : CompileM Fragment} {y : Eval Value} {f : Value → Eval Value}
    {ins : Instruction} (hx : Means su x y)
    (hf : ∀ (main : Routine Value) (pos fuel : Nat) (st : Array Value) (v : Value),
      decode main.code pos = .ok ins →
      Plays su main fuel (f v) pos (st.push v) (Pushing (pos + ins.size) st)) :
    Means su (do return (← x).push (.op ins)) (y >>= f) := by
  intro s s' code hs h main exits pos fuel st hcovers hlies
  obtain ⟨operand, hoperand, rfl⟩ := bind_pure_eq_ok.1 h
  rw [Array.toList_push] at hlies ⊢
  obtain ⟨hfront, hlast, -⟩ := lieAt_append.1 hlies
  refine (hx hs hoperand main exits pos fuel st hcovers hfront).pushed fun v => ?_
  rw [itemsSize_append, ← Nat.add_assoc]
  exact hf main _ fuel st v hlast

omit hsteps in
/-- An instruction that takes the values of two operands. -/
theorem means_binary {x y : CompileM Fragment} {a b : Eval Value} {f : Value → Value → Eval Value}
    {ins : Instruction} (hx : Means su x a) (hy : Means su y b) (hax : KeepsTop x)
    (hay : KeepsTop y)
    (hf : ∀ (main : Routine Value) (pos fuel : Nat) (st : Array Value) (v w : Value),
      decode main.code pos = .ok ins →
      Plays su main fuel (f v w) pos ((st.push v).push w) (Pushing (pos + ins.size) st)) :
    Means su (do
      let first ← x
      let second ← y
      return (first ++ second).push (.op ins)) (do f (← a) (← b)) := by
  intro s s' code hs h main exits pos fuel st hcovers hlies
  obtain ⟨first, s₁, hfirst, h₁⟩ := bind_eq_ok.1 h
  obtain ⟨second, hsecond, rfl⟩ := bind_pure_eq_ok.1 h₁
  obtain ⟨hs₁, -⟩ := hax hs hfirst
  obtain ⟨-, hgrows⟩ := hay hs₁ hsecond
  rw [Array.toList_push, Array.toList_append] at hlies ⊢
  obtain ⟨hfront, hlast, -⟩ := lieAt_append.1 hlies
  obtain ⟨hleft, hright⟩ := lieAt_append.1 hfront
  refine (hx hs hfirst main exits pos fuel st (hcovers.mono hgrows) hleft).pushed fun v => ?_
  refine (hy hs₁ hsecond main exits _ fuel _ hcovers hright).pushed fun w => ?_
  rw [itemsSize_append, ← Nat.add_assoc]
  rw [itemsSize_append, ← Nat.add_assoc] at hlast ⊢
  exact hf main _ fuel st v w hlast

theorem means_logical {x y : CompileM Fragment} {a b : Eval Value} (hx : Means su x a)
    (hy : Means su y b) (hax : KeepsTop x) (hay : KeepsTop y) (op : Connective) (span : Span) :
    Means su (do
      let first ← x
      let second ← y
      joinConnective op first second span) (op.join a b) := by
  intro s s' code hs h main exits pos fuel st hcovers hlies
  obtain ⟨first, s₁, hfirst, h₁⟩ := bind_eq_ok.1 h
  obtain ⟨second, s₂, hsecond, h₂⟩ := bind_eq_ok.1 h₁
  obtain ⟨hs₁, -⟩ := hax hs hfirst
  obtain ⟨-, hgrows⟩ := hay hs₁ hsecond
  obtain ⟨rfl, -, hcode⟩ := joinConnective_eq_ok h₂
  rw [hcode] at hlies ⊢
  have hjump : ∀ d, (jumpOver op.jump d).size = 3 := by cases op <;> exact fun d => rfl
  obtain ⟨hleft, -, hrest⟩ := lieAt_append.1 hlies
  rw [hjump] at hrest
  obtain ⟨hright, -⟩ := lieAt_append.1 hrest
  exact .connective hsteps hlies
    (hx hs hfirst main exits pos fuel st (hcovers.mono hgrows) hleft)
    (hy hs₁ hsecond main exits _ fuel st hcovers hright)

/-- A call: the function, then its arguments. -/
theorem means_call {x : CompileM Fragment} {xs : Fragment → CompileM Fragment} {a : Eval Value}
    {as : Eval (List Value)} {k : Nat} {span : Span} (hx : Means su x a)
    (hxs : MeansMany su xs as id k) (hax : KeepsTop x) (haxs : ∀ code, KeepsTop (xs code)) :
    Means su (do
      let code ← x
      let code ← xs code
      return code.push (← emit .call [k] span)) (do
      let f ← a
      let values ← as
      Eval.call su.host f values.toArray) := by
  intro s s' code hs h main exits pos fuel st hcovers hlies
  obtain ⟨callee, s₁, hcallee, h₁⟩ := bind_eq_ok.1 h
  obtain ⟨args, s₂, hargs, h₂⟩ := bind_eq_ok.1 h₁
  obtain ⟨item, hitem, rfl⟩ := bind_pure_eq_ok.1 h₂
  obtain ⟨rfl, rfl, -⟩ := emit_eq_ok hitem
  obtain ⟨hs₁, -⟩ := hax hs hcallee
  obtain ⟨-, hgrows⟩ := haxs callee hs₁ hargs
  obtain ⟨more, hmore, hplays⟩ := hxs hs₁ hargs
  rw [Array.toList_push, hmore] at hlies ⊢
  obtain ⟨hfront, hlast, -⟩ := lieAt_append.1 hlies
  obtain ⟨hleft, hright⟩ := lieAt_append.1 hfront
  refine (hx hs hcallee main exits pos fuel st (hcovers.mono hgrows) hleft).pushed fun v => ?_
  refine (hplays main exits _ fuel _ hcovers hright).bind fun values ip stack hgathered => ?_
  obtain ⟨hlength, rfl, rfl⟩ := hgathered
  rw [itemsSize_append, ← Nat.add_assoc]
  rw [itemsSize_append, ← Nat.add_assoc] at hlast ⊢
  rw [← hlength] at hlast
  exact .call hsteps hlast

theorem means_attr {x : CompileM Fragment} {a : Eval Value} (hx : Means su x a) (hax : KeepsTop x)
    (name : String) (span : Span) :
    Means su (do
      let code ← x
      return code.push (← emit .loadAttr [← addName name span] span)) (do
      let v ← a
      Eval.ask fun h => getAttribute h v name) := by
  intro s s' code hs h main exits pos fuel st hcovers hlies
  obtain ⟨object, s₁, hobject, h₁⟩ := bind_eq_ok.1 h
  obtain ⟨i, s₂, hname, h₂⟩ := bind_eq_ok.1 h₁
  obtain ⟨item, hitem, rfl⟩ := bind_pure_eq_ok.1 h₂
  obtain ⟨rfl, rfl, -⟩ := emit_eq_ok hitem
  obtain ⟨hs₁, -⟩ := hax hs hobject
  obtain ⟨-, hgrows, -, hi⟩ := addName_spec hs₁.ready hname
  rw [Array.toList_push] at hlies ⊢
  obtain ⟨hfront, hlast, -⟩ := lieAt_append.1 hlies
  refine (hx hs hobject main exits pos fuel st (hcovers.mono hgrows) hfront).pushed fun v => ?_
  rw [itemsSize_append, ← Nat.add_assoc]
  exact .attribute hsteps (hcovers.names i name hi) hlast

omit hsteps in
theorem meansMany_nil {α : Type} {values : α → List Value} {a : α} (ha : values a = []) :
    MeansMany su (fun code => pure code) (pure a) values 0 := by
  intro s s' code code' hs h
  obtain ⟨rfl, rfl⟩ := pure_eq_ok.1 h
  refine ⟨[], (List.append_nil _).symm, fun main exits pos fuel st _ _ => .done ⟨?_, rfl, ?_⟩⟩
  · rw [ha]
    rfl
  · rw [ha]
    simp

omit hsteps in
theorem meansMany_cons {x : CompileM Fragment} {xs : Fragment → CompileM Fragment} {a : Eval Value}
    {as : Eval (List Value)} {k : Nat} (hx : Means su x a) (hxs : MeansMany su xs as id k)
    (hax : KeepsTop x) (haxs : ∀ code, KeepsTop (xs code)) :
    MeansMany su (fun code => do
      let more ← x
      xs (code ++ more)) (do
      let v ← a
      return v :: (← as)) id (k + 1) := by
  intro s s' code code' hs h
  obtain ⟨first, s₁, hfirst, h₁⟩ := bind_eq_ok.1 h
  obtain ⟨hs₁, -⟩ := hax hs hfirst
  obtain ⟨-, hgrows⟩ := haxs _ hs₁ h₁
  obtain ⟨more, hmore, hplays⟩ := hxs hs₁ h₁
  refine ⟨first.toList ++ more, ?_, fun main exits pos fuel st hcovers hlies => ?_⟩
  · rw [hmore, Array.toList_append, List.append_assoc]
  · obtain ⟨hleft, hright⟩ := lieAt_append.1 hlies
    refine (hx hs hfirst main exits pos fuel st (hcovers.mono hgrows) hleft).pushed fun v => ?_
    refine (hplays main exits _ fuel _ hcovers hright).bind fun vs ip stack hgathered => ?_
    obtain ⟨hlength, rfl, rfl⟩ := hgathered
    refine .done ⟨?_, ?_, ?_⟩
    · exact congrArg (· + 1) hlength
    · rw [itemsSize_append, Nat.add_assoc]
    · simp

omit hsteps in
/-- Keys and values in turn. -/
theorem meansMany_entry {x y : CompileM Fragment} {xs : Fragment → CompileM Fragment}
    {a b : Eval Value} {as : Eval (List (Value × Value))} {k : Nat} (hx : Means su x a)
    (hy : Means su y b) (hxs : MeansMany su xs as inTurn k) (hax : KeepsTop x) (hay : KeepsTop y)
    (haxs : ∀ code, KeepsTop (xs code)) :
    MeansMany su (fun code => do
      let first ← x
      let second ← y
      xs (code ++ first ++ second)) (do
      let key ← a
      let value ← b
      return (key, value) :: (← as)) inTurn (k + 2) := by
  intro s s' code code' hs h
  obtain ⟨first, s₁, hfirst, h₁⟩ := bind_eq_ok.1 h
  obtain ⟨second, s₂, hsecond, h₂⟩ := bind_eq_ok.1 h₁
  obtain ⟨hs₁, -⟩ := hax hs hfirst
  obtain ⟨hs₂, hgrows⟩ := hay hs₁ hsecond
  obtain ⟨-, hgrows'⟩ := haxs _ hs₂ h₂
  obtain ⟨more, hmore, hplays⟩ := hxs hs₂ h₂
  refine ⟨first.toList ++ (second.toList ++ more), ?_,
    fun main exits pos fuel st hcovers hlies => ?_⟩
  · rw [hmore]
    simp
  · obtain ⟨hkey, hrest⟩ := lieAt_append.1 hlies
    obtain ⟨hvalue, hright⟩ := lieAt_append.1 hrest
    have hcovers₂ := hcovers.mono hgrows'
    refine (hx hs hfirst main exits pos fuel st (hcovers₂.mono hgrows) hkey).pushed fun v => ?_
    refine (hy hs₁ hsecond main exits _ fuel _ hcovers₂ hvalue).pushed fun w => ?_
    refine (hplays main exits _ fuel _ hcovers hright).bind fun vs ip stack hgathered => ?_
    obtain ⟨hlength, rfl, rfl⟩ := hgathered
    refine .done ⟨?_, ?_, ?_⟩
    · exact congrArg (· + 2) hlength
    · rw [itemsSize_append, itemsSize_append, Nat.add_assoc, Nat.add_assoc]
    · simp [inTurn]

end

section
variable {su : Surroundings} {builtins : Std.HashSet String}

theorem compileExpr_keepsTop {e : Expr} (h : e.Unsigned) : KeepsTop (compileExpr builtins e) :=
  (compileExpr_pushes e).keepsTop (compileExpr_keepsUnsigned e h)

theorem compileExprs_keepsTop {items : List Expr} (h : AllUnsigned items) (code : Fragment) :
    KeepsTop (compileExprs builtins items code) :=
  (compileExprs_pushes items).keepsTop (compileExprs_keepsUnsigned items h) code

theorem compileEntries_keepsTop {entries : List (Expr × Expr)} (h : EntriesUnsigned entries)
    (code : Fragment) : KeepsTop (compileEntries builtins entries code) :=
  (compileEntries_pushes entries).keepsTop (compileEntries_keepsUnsigned entries h) code

mutual

/-- The code of an expression without functions plays its evaluation. -/
theorem compileExpr_means (hsteps : su.settings.maxSteps = none) :
    ∀ e : Expr, e.isFunctionFree = true → e.Unsigned →
    Means su (compileExpr builtins e) (e.eval su.host)
  | .int span n, _, _ => means_literal hsteps span rfl nofun (fun _ hx => by cases hx)
  | .float span x, _, h =>
    means_literal hsteps span rfl nofun (fun _ hx => by cases hx; exact h)
  | .str span s, _, _ => means_literal hsteps span rfl nofun (fun _ hx => by cases hx)
  | .bool _ true, _, _ => means_op hsteps (fun _ => rfl) nofun
  | .bool _ false, _, _ => means_op hsteps (fun _ => rfl) nofun
  | .nil _, _, _ => means_op hsteps (fun _ => rfl) nofun
  | .ident span name, _, _ => means_ident hsteps span name
  | .list _ items, hfree, h =>
    means_checked (means_gather (compileExprs_means hsteps items hfree h)
      fun _ _ _ _ values hdecoded hlength => .buildList hsteps (by
        rw [show values.length = items.length from hlength]
        exact hdecoded))
  | .set _ items, hfree, h =>
    means_checked (means_gather (compileExprs_means hsteps items hfree h)
      fun _ _ _ _ values hdecoded hlength => .buildSet hsteps (by
        rw [show values.length = items.length from hlength]
        exact hdecoded))
  | .map _ entries, hfree, h =>
    means_checked (means_gather (compileEntries_means hsteps entries hfree h)
      fun _ _ _ _ pairs hdecoded hlength => .buildMap hsteps (by
        rw [length_inTurn] at hlength
        rw [show pairs.length = entries.length by omega]
        exact hdecoded))
  | .unary _ op operand, hfree, h => by
    refine means_unary (compileExpr_means hsteps operand hfree h)
      fun main pos fuel st v hdecoded => ?_
    rw [show Instruction.size ⟨op.opcode, []⟩ = 1 by cases op <;> rfl]
    exact .unary hsteps hdecoded
  | .binary _ op left right, hfree, h => by
    obtain ⟨hleft, hright⟩ := Bool.and_eq_true_iff.1 hfree
    refine means_binary (compileExpr_means hsteps left hleft h.1)
      (compileExpr_means hsteps right hright h.2) (compileExpr_keepsTop h.1)
      (compileExpr_keepsTop h.2) fun main pos fuel st v w hdecoded => ?_
    rw [show op.instruction.size = 2 by cases op <;> rfl]
    exact .operation hsteps hdecoded
  | .logical span op left right, hfree, h => by
    obtain ⟨hleft, hright⟩ := Bool.and_eq_true_iff.1 hfree
    exact means_logical hsteps (compileExpr_means hsteps left hleft h.1)
      (compileExpr_means hsteps right hright h.2) (compileExpr_keepsTop h.1)
      (compileExpr_keepsTop h.2) op span
  | .call _ callee args, hfree, h => by
    obtain ⟨hcallee, hargs⟩ := Bool.and_eq_true_iff.1 hfree
    exact means_checked (means_call hsteps (compileExpr_means hsteps callee hcallee h.1)
      (compileExprs_means hsteps args hargs h.2) (compileExpr_keepsTop h.1)
      (compileExprs_keepsTop h.2))
  | .index _ object key, hfree, h => by
    obtain ⟨hobject, hkey⟩ := Bool.and_eq_true_iff.1 hfree
    exact means_binary (compileExpr_means hsteps object hobject h.1)
      (compileExpr_means hsteps key hkey h.2) (compileExpr_keepsTop h.1) (compileExpr_keepsTop h.2)
      fun _ _ _ _ _ _ hdecoded => .subscript hsteps hdecoded
  | .attr span object name, hfree, h =>
    means_attr hsteps (compileExpr_means hsteps object hfree h) (compileExpr_keepsTop h) name span
  | .func .., hfree, _ => by cases hfree

theorem compileExprs_means (hsteps : su.settings.maxSteps = none) :
    ∀ items : List Expr, allFunctionFree items = true → AllUnsigned items →
    MeansMany su (compileExprs builtins items) (evalAll su.host items) id items.length
  | [], _, _ => meansMany_nil rfl
  | e :: rest, hfree, h => by
    obtain ⟨he, hrest⟩ := Bool.and_eq_true_iff.1 hfree
    exact meansMany_cons (compileExpr_means hsteps e he h.1)
      (compileExprs_means hsteps rest hrest h.2)
      (compileExpr_keepsTop h.1) (compileExprs_keepsTop h.2)

theorem compileEntries_means (hsteps : su.settings.maxSteps = none) :
    ∀ entries : List (Expr × Expr), pairsFunctionFree entries = true → EntriesUnsigned entries →
    MeansMany su (compileEntries builtins entries) (evalPairs su.host entries) inTurn
      (2 * entries.length)
  | [], _, _ => meansMany_nil rfl
  | (k, v) :: rest, hfree, h => by
    obtain ⟨hboth, hrest⟩ := Bool.and_eq_true_iff.1 hfree
    obtain ⟨hk, hv⟩ := Bool.and_eq_true_iff.1 hboth
    exact meansMany_entry (compileExpr_means hsteps k hk h.1) (compileExpr_means hsteps v hv h.2.1)
      (compileEntries_means hsteps rest hrest h.2.2) (compileExpr_keepsTop h.1)
      (compileExpr_keepsTop h.2.1) (compileEntries_keepsTop h.2.2)

end

end

end Ember
