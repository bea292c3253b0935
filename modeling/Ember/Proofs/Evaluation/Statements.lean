import Ember.Proofs.Evaluation.Compiled

/-! The code of statements and of chunks plays their execution. A statement begins and ends with an
empty stack; a chunk may leave the value of its last expression there. -/
namespace Ember
set_option autoImplicit false

open CompileM

/-! ## Values that are used up -/

section
variable {su : Surroundings} {builtins : Std.HashSet String}

theorem Plays.finished {main : Routine Value} {fuel pos next : Nat} {st : Array Value}
    {exits : LoopExit → Nat} {x : Eval Unit} (hx : Plays su main fuel x pos st (Leaving next #[])) :
    Plays su main fuel (do x; return .normal) pos st (Exiting exits next) :=
  hx.left (.done ⟨rfl, rfl⟩)

theorem does_unary {x : CompileM Fragment} {y : Eval Value} {f : Value → Eval Unit}
    {ins : Instruction} (hx : Means su x y)
    (hf : ∀ (main : Routine Value) (pos fuel : Nat) (v : Value), decode main.code pos = .ok ins →
      Plays su main fuel (f v) pos (#[].push v) (Leaving (pos + ins.size) #[])) :
    Does su (do return (← x).push (.op ins)) (fun _ => do f (← y); return .normal) := by
  intro s s' code hs h main exits pos fuel hcovers hlies
  obtain ⟨operand, hoperand, rfl⟩ := bind_pure_eq_ok.1 h
  rw [Array.toList_push] at hlies ⊢
  obtain ⟨hfront, hlast, -⟩ := lieAt_append.1 hlies
  refine (hx hs hoperand main exits pos fuel #[] hcovers hfront).pushed fun v => ?_
  rw [itemsSize_append, ← Nat.add_assoc]
  exact (hf main _ fuel v hlast).finished

theorem does_binary {x y : CompileM Fragment} {a b : Eval Value} {f : Value → Value → Eval Unit}
    {ins : Instruction} (hx : Means su x a) (hy : Means su y b) (hax : KeepsTop x)
    (hay : KeepsTop y)
    (hf : ∀ (main : Routine Value) (pos fuel : Nat) (v w : Value), decode main.code pos = .ok ins →
      Plays su main fuel (f v w) pos ((#[].push v).push w) (Leaving (pos + ins.size) #[])) :
    Does su (do
      let first ← x
      let second ← y
      return (first ++ second).push (.op ins)) (fun _ => do f (← a) (← b); return .normal) := by
  intro s s' code hs h main exits pos fuel hcovers hlies
  obtain ⟨first, s₁, hfirst, h₁⟩ := bind_eq_ok.1 h
  obtain ⟨second, hsecond, rfl⟩ := bind_pure_eq_ok.1 h₁
  obtain ⟨hs₁, -⟩ := hax hs hfirst
  obtain ⟨-, hgrows⟩ := hay hs₁ hsecond
  rw [Array.toList_push, Array.toList_append] at hlies ⊢
  obtain ⟨hfront, hlast, -⟩ := lieAt_append.1 hlies
  obtain ⟨hleft, hright⟩ := lieAt_append.1 hfront
  refine (hx hs hfirst main exits pos fuel #[] (hcovers.mono hgrows) hleft).pushed fun v => ?_
  refine (hy hs₁ hsecond main exits _ fuel _ hcovers hright).pushed fun w => ?_
  rw [itemsSize_append, ← Nat.add_assoc]
  rw [itemsSize_append, ← Nat.add_assoc] at hlast ⊢
  exact (hf main _ fuel v w hlast).finished

variable (hsteps : su.settings.maxSteps = none)
include hsteps

/-- The value comes first, then the container, then the key. -/
theorem does_storeSubscr {x y z : CompileM Fragment} {a b c : Eval Value} (hx : Means su x a)
    (hy : Means su y b) (hz : Means su z c) (hax : KeepsTop x) (hay : KeepsTop y)
    (haz : KeepsTop z) :
    Does su (do
      let first ← x
      let second ← y
      let third ← z
      return (first ++ second ++ third).push (.op ⟨.storeSubscr, []⟩)) (fun _ => do
      let v ← a
      let container ← b
      let k ← c
      Eval.onHeap (setItem container k v)
      return .normal) := by
  intro s s' code hs h main exits pos fuel hcovers hlies
  obtain ⟨first, s₁, hfirst, h₁⟩ := bind_eq_ok.1 h
  obtain ⟨second, s₂, hsecond, h₂⟩ := bind_eq_ok.1 h₁
  obtain ⟨third, hthird, rfl⟩ := bind_pure_eq_ok.1 h₂
  obtain ⟨hs₁, -⟩ := hax hs hfirst
  obtain ⟨hs₂, hgrows⟩ := hay hs₁ hsecond
  obtain ⟨-, hgrows'⟩ := haz hs₂ hthird
  rw [Array.toList_push, Array.toList_append, Array.toList_append] at hlies ⊢
  obtain ⟨hfront, hlast, -⟩ := lieAt_append.1 hlies
  obtain ⟨hboth, hkey⟩ := lieAt_append.1 hfront
  obtain ⟨hvalue, hobject⟩ := lieAt_append.1 hboth
  have hcovers₂ := hcovers.mono hgrows'
  refine (hx hs hfirst main exits pos fuel #[] (hcovers₂.mono hgrows) hvalue).pushed fun v => ?_
  refine (hy hs₁ hsecond main exits _ fuel _ hcovers₂ hobject).pushed fun w => ?_
  rw [itemsSize_append, ← Nat.add_assoc] at hkey
  refine (hz hs₂ hthird main exits _ fuel _ hcovers hkey).pushed fun k => ?_
  simp only [itemsSize_append, ← Nat.add_assoc] at hlast ⊢
  exact (Plays.storeSubscript hsteps hlast).finished

theorem does_storeAttr {x y : CompileM Fragment} {a b : Eval Value} (hx : Means su x a)
    (hy : Means su y b) (hax : KeepsTop x) (hay : KeepsTop y) (name : String) (span : Span) :
    Does su (do
      let first ← x
      let second ← y
      return (first ++ second).push (← emit .storeAttr [← addName name span] span)) (fun _ => do
      let v ← a
      let target ← b
      Eval.onHeap (setAttribute target name v)
      return .normal) := by
  intro s s' code hs h main exits pos fuel hcovers hlies
  obtain ⟨first, s₁, hfirst, h₁⟩ := bind_eq_ok.1 h
  obtain ⟨second, s₂, hsecond, h₂⟩ := bind_eq_ok.1 h₁
  obtain ⟨i, s₃, hname, h₃⟩ := bind_eq_ok.1 h₂
  obtain ⟨item, hitem, rfl⟩ := bind_pure_eq_ok.1 h₃
  obtain ⟨rfl, rfl, -⟩ := emit_eq_ok hitem
  obtain ⟨hs₁, -⟩ := hax hs hfirst
  obtain ⟨hs₂, hgrows⟩ := hay hs₁ hsecond
  obtain ⟨-, hgrows', -, hi⟩ := addName_spec hs₂.ready hname
  rw [Array.toList_push, Array.toList_append] at hlies ⊢
  obtain ⟨hfront, hlast, -⟩ := lieAt_append.1 hlies
  obtain ⟨hleft, hright⟩ := lieAt_append.1 hfront
  have hcovers₂ := hcovers.mono hgrows'
  refine (hx hs hfirst main exits pos fuel #[] (hcovers₂.mono hgrows) hleft).pushed fun v => ?_
  refine (hy hs₁ hsecond main exits _ fuel _ hcovers₂ hright).pushed fun w => ?_
  simp only [itemsSize_append, ← Nat.add_assoc] at hlast ⊢
  exact (Plays.storeAttribute hsteps (hcovers.names i name hi) hlast).finished

/-! ## Variables -/

omit hsteps in
theorem Finds.keepsTop {y : CompileM Symbol} {name : String} (h : Finds y name)
    (hunsigned : KeepsUnsigned y) : KeepsTop y := by
  intro s s' symbol hs hy
  obtain ⟨hready, hgrows, -⟩ := h hs.ready hy
  exact ⟨hs.grown hready hgrows (hunsigned hs.unsigned hy), hgrows⟩

/-- At the top level, a value is stored under the name itself. -/
theorem Plays.stored {s s' : CompileState} {name : String} {symbol : Symbol} {span : Span}
    {item : Item} {main : Routine Value} {exits : LoopExit → Nat} {fuel pos : Nat} {v : Value}
    (hs : TopLevel s) (hsymbol : SymbolAt s name symbol)
    (h : storeSymbol symbol span s = .ok (item, s')) (hcovers : main.Covers s')
    (hlies : item.LiesAt main.code exits pos) :
    Plays su main fuel (do Eval.store name v; return .normal) pos (#[].push v)
      (Exiting exits (pos + item.size)) := by
  rw [storeSymbol_eq] at h
  obtain ⟨i, rfl, hi⟩ := accessSymbol_name hs hsymbol h
  exact (Plays.storeName hsteps (hcovers.names i name hi) hlies).finished

omit hsteps in
theorem storeSymbol_grows {s s' : CompileState} {name : String} {symbol : Symbol} {span : Span}
    {item : Item} (hs : TopLevel s) (hsymbol : SymbolAt s name symbol)
    (h : storeSymbol symbol span s = .ok (item, s')) : Grows s s' :=
  (storeSymbol_yields 0 hs.ready hsymbol h).grows

/-- The name is found after the value. -/
theorem does_store {x : CompileM Fragment} {a : Eval Value} {y : CompileM Symbol} {name : String}
    (hx : Means su x a) (hax : KeepsTop x) (hy : Finds y name) (hunsigned : KeepsUnsigned y)
    (span : Span) :
    Does su (do
      let code ← x
      let symbol ← y
      return code.push (← storeSymbol symbol span)) (fun _ => do
      Eval.store name (← a)
      return .normal) := by
  intro s s' code hs h main exits pos fuel hcovers hlies
  obtain ⟨value, s₁, hvalue, h₁⟩ := bind_eq_ok.1 h
  obtain ⟨symbol, s₂, hsymbol, h₂⟩ := bind_eq_ok.1 h₁
  obtain ⟨item, hitem, rfl⟩ := bind_pure_eq_ok.1 h₂
  obtain ⟨hs₁, -⟩ := hax hs hvalue
  obtain ⟨hs₂, hgrows⟩ := hy.keepsTop hunsigned hs₁ hsymbol
  obtain ⟨-, -, hat⟩ := hy hs₁.ready hsymbol
  have hcovers₁ := (hcovers.mono (storeSymbol_grows hs₂ hat hitem)).mono hgrows
  rw [Array.toList_push] at hlies ⊢
  obtain ⟨hfront, hlast, -⟩ := lieAt_append.1 hlies
  refine (hx hs hvalue main exits pos fuel #[] hcovers₁ hfront).pushed fun v => ?_
  rw [itemsSize_append, ← Nat.add_assoc]
  exact .stored hsteps hs₂ hat hitem hcovers hlast

/-- The name is found before the value. -/
theorem does_storeTo {x : CompileM Fragment} {a : Eval Value} {y : CompileM Symbol} {name : String}
    (hx : Means su x a) (hax : KeepsTop x) (hy : Finds y name) (hunsigned : KeepsUnsigned y)
    (span : Span) :
    Does su (do
      let symbol ← y
      let code ← x
      return code.push (← storeSymbol symbol span)) (fun _ => do
      Eval.store name (← a)
      return .normal) := by
  intro s s' code hs h main exits pos fuel hcovers hlies
  obtain ⟨symbol, s₁, hsymbol, h₁⟩ := bind_eq_ok.1 h
  obtain ⟨value, s₂, hvalue, h₂⟩ := bind_eq_ok.1 h₁
  obtain ⟨item, hitem, rfl⟩ := bind_pure_eq_ok.1 h₂
  obtain ⟨hs₁, -⟩ := hy.keepsTop hunsigned hs hsymbol
  obtain ⟨-, -, hat⟩ := hy hs.ready hsymbol
  obtain ⟨hs₂, hgrows⟩ := hax hs₁ hvalue
  have hat₂ := hat.mono hgrows
  have hcovers₂ := hcovers.mono (storeSymbol_grows hs₂ hat₂ hitem)
  rw [Array.toList_push] at hlies ⊢
  obtain ⟨hfront, hlast, -⟩ := lieAt_append.1 hlies
  refine (hx hs₁ hvalue main exits pos fuel #[] hcovers₂ hfront).pushed fun v => ?_
  rw [itemsSize_append, ← Nat.add_assoc]
  exact .stored hsteps hs₂ hat₂ hitem hcovers hlast

/-! ## Conditionals and loops -/

theorem does_if {x y : CompileM Fragment} {a : Eval Value} {b : Nat → Eval Ending}
    (hx : Means su x a) (hy : Does su y b) (hax : KeepsTop x) (hay : KeepsTop y) (span : Span) :
    Does su (do
      let test ← x
      let first ← y
      let skip ← emitJump .popJumpForwardIfFalse first.byteSize span
      return test.push skip ++ first) (fun fuel => do
      if ← Eval.truth (← a) then b fuel else return .normal) := by
  intro s s' code hs h main exits pos fuel hcovers hlies
  obtain ⟨test, s₁, htest, h₁⟩ := bind_eq_ok.1 h
  obtain ⟨first, s₂, hfirst, h₂⟩ := bind_eq_ok.1 h₁
  obtain ⟨skip, hskip, rfl⟩ := bind_pure_eq_ok.1 h₂
  obtain ⟨rfl, rfl, -⟩ := emitJump_eq_ok hskip
  obtain ⟨hs₁, -⟩ := hax hs htest
  obtain ⟨-, hgrows⟩ := hay hs₁ hfirst
  rw [Fragment.byteSize_eq, Array.toList_append, Array.toList_push, List.append_assoc,
    List.singleton_append] at hlies ⊢
  obtain ⟨hcond, -, hbody⟩ := lieAt_append.1 hlies
  exact .conditional hsteps hlies (hx hs htest main exits pos fuel #[] (hcovers.mono hgrows) hcond)
    (hy hs₁ hfirst main exits _ fuel hcovers hbody)

theorem does_ifElse {x y z : CompileM Fragment} {a : Eval Value} {b c : Nat → Eval Ending}
    (hx : Means su x a) (hy : Does su y b) (hz : Does su z c) (hax : KeepsTop x) (hay : KeepsTop y)
    (haz : KeepsTop z) (span : Span) :
    Does su (do
      let test ← x
      let first ← y
      let toElse ← emitJump .popJumpForwardIfFalse (first.byteSize + 3) span
      let second ← z
      let toEnd ← emitJump .jumpForward second.byteSize span
      return (test.push toElse ++ first).push toEnd ++ second) (fun fuel => do
      if ← Eval.truth (← a) then b fuel else c fuel) := by
  intro s s' code hs h main exits pos fuel hcovers hlies
  obtain ⟨test, s₁, htest, h₁⟩ := bind_eq_ok.1 h
  obtain ⟨first, s₂, hfirst, h₂⟩ := bind_eq_ok.1 h₁
  obtain ⟨toElse, s₃, htoElse, h₃⟩ := bind_eq_ok.1 h₂
  obtain ⟨rfl, rfl, -⟩ := emitJump_eq_ok htoElse
  obtain ⟨second, s₄, hsecond, h₄⟩ := bind_eq_ok.1 h₃
  obtain ⟨toEnd, htoEnd, rfl⟩ := bind_pure_eq_ok.1 h₄
  obtain ⟨rfl, rfl, -⟩ := emitJump_eq_ok htoEnd
  obtain ⟨hs₁, -⟩ := hax hs htest
  obtain ⟨hs₂, hgrows⟩ := hay hs₁ hfirst
  obtain ⟨-, hgrows'⟩ := haz hs₂ hsecond
  have hcovers₂ := hcovers.mono hgrows'
  have hitems : ((test.push (jumpOver .popJumpForwardIfFalse (Fragment.byteSize first + 3)) ++
      first).push (jumpOver .jumpForward (Fragment.byteSize second)) ++ second).toList =
      test.toList ++ jumpOver .popJumpForwardIfFalse (itemsSize first.toList + 3) ::
        (first.toList ++ jumpOver .jumpForward (itemsSize second.toList) :: second.toList) := by
    rw [Fragment.byteSize_eq, Fragment.byteSize_eq]
    simp
  rw [hitems] at hlies ⊢
  obtain ⟨hcond, -, hrest⟩ := lieAt_append.1 hlies
  obtain ⟨hbody, -, hother⟩ := lieAt_append.1 hrest
  exact .alternative hsteps hlies
    (hx hs htest main exits pos fuel #[] (hcovers₂.mono hgrows) hcond)
    (hy hs₁ hfirst main exits _ fuel hcovers₂ hbody)
    (hz hs₂ hsecond main exits _ fuel hcovers hother)

theorem does_while {x y : CompileM Fragment} {a : Eval Value} {b : Nat → Eval Ending}
    (hx : Means su x a) (hy : Does su y b) (hax : KeepsTop x) (hay : KeepsTop y) (span : Span) :
    Does su (do
      let inner ← y
      let bodySize := inner.byteSize
      let toTest ← emitJump .jumpForward bodySize span
      let test ← x
      let tail := test.byteSize + 3
      let again ← emit .popJumpBackwardIfTrue [bodySize + tail] span
      return (#[toTest] ++ inner.closeLoop bodySize tail ++ test).push again)
      (fun fuel => Eval.loop (do Eval.truth (← a)) (b fuel) fuel) := by
  intro s s' code hs h main exits pos fuel hcovers hlies
  obtain ⟨inner, s₁, hinner, h₁⟩ := bind_eq_ok.1 h
  obtain ⟨toTest, s₂, htoTest, h₂⟩ := bind_eq_ok.1 h₁
  obtain ⟨rfl, rfl, -⟩ := emitJump_eq_ok htoTest
  obtain ⟨test, s₃, htest, h₃⟩ := bind_eq_ok.1 h₂
  obtain ⟨again, hagain, rfl⟩ := bind_pure_eq_ok.1 h₃
  obtain ⟨rfl, rfl, -⟩ := emit_eq_ok hagain
  obtain ⟨hs₁, -⟩ := hay hs hinner
  obtain ⟨-, hgrows⟩ := hax hs₁ htest
  rw [toList_loop] at hlies ⊢
  obtain ⟨hbody, hrest⟩ := lieAt_append.1 hlies.2
  obtain ⟨hcond, -⟩ := lieAt_append.1 hrest
  rw [itemsSize_closeItems] at hcond
  -- the holes of the body lead to the ends of this loop, whatever loop is around it
  have hbody' : LieAt main.code (loopExits (pos + 3) (itemsSize inner.toList)
      (itemsSize test.toList + 3)) (pos + 3) inner.toList :=
    LieAt.of_closed hbody (Nat.le_of_eq (Nat.zero_add _))
  exact .loop hsteps hlies (hx hs₁ htest main exits _ fuel #[] hcovers hcond)
    (hy hs hinner main _ _ fuel (hcovers.mono hgrows) hbody')

/-- A way out of a loop is a jump to where the loop has aimed it. -/
theorem does_hole {inLoop : Bool} (exit : LoopExit) {ending : Ending} {fault : CompileFault}
    {span : Span} (hending : ∀ exits next, ending.place exits next = exits exit) :
    Does su (if inLoop then pure #[.hole exit] else fail fault span) (fun _ => pure ending) := by
  intro s s' code hs h main exits pos fuel hcovers hlies
  split at h
  · obtain ⟨rfl, rfl⟩ := pure_eq_ok.1 h
    obtain ⟨⟨distance, hdecoded, htarget⟩, -⟩ := hlies
    refine (Plays.jump hsteps hdecoded).skip (.done ⟨?_, rfl⟩)
    rw [hending, htarget]
  · exact absurd h fail_ne_ok

omit hsteps in
theorem does_fail {y : Nat → Eval Ending} (fault : CompileFault) (span : Span) :
    Does su (fail fault span) y :=
  fun _ _ _ _ h => absurd h fail_ne_ok

omit hsteps in
/-- At the top level nothing can be returned. -/
theorem TopLevel.not_return {s s' : CompileState} {x : CompileM Fragment} {code : Fragment}
    {span : Span} (hs : TopLevel s) :
    ¬ (do if ← inFunction then x else fail .returnOutsideFunction span) s = .ok (code, s') := by
  intro h
  obtain ⟨b, s₁, hb, h₁⟩ := bind_eq_ok.1 h
  split at h₁
  · rename_i htrue
    obtain ⟨scope, hscopes⟩ := hs.top
    obtain ⟨-, hkind⟩ := kind_of_inFunction hb htrue
    have hnested := hs.ready.nested
    rw [draft_kind hscopes] at hkind
    rw [hscopes] at hnested
    cases hnested with
    | top htop =>
      rw [htop] at hkind
      cases hkind
  · exact absurd h₁ fail_ne_ok

omit hsteps in
theorem does_return {x : CompileM Fragment} {y : Nat → Eval Ending} (span : Span) :
    Does su (do if ← inFunction then x else fail .returnOutsideFunction span) y :=
  fun _ _ _ hs h => (hs.not_return h).elim

/-! ## Statements one after the other -/

omit hsteps in
theorem doesMany_nil : DoesMany su (fun code => pure code) (fun _ => pure .normal) := by
  intro s s' code code' hs h
  obtain ⟨rfl, rfl⟩ := pure_eq_ok.1 h
  exact ⟨[], (List.append_nil _).symm, fun main exits pos fuel _ _ => .done ⟨rfl, rfl⟩⟩

omit hsteps in
theorem doesMany_cons {x : CompileM Fragment} {xs : Fragment → CompileM Fragment}
    {a as : Nat → Eval Ending} (hx : Does su x a) (hxs : DoesMany su xs as) (hax : KeepsTop x)
    (haxs : ∀ code, KeepsTop (xs code)) :
    DoesMany su (fun code => do
      let more ← x
      xs (code ++ more)) (fun fuel => do
      match ← a fuel with
      | .normal => as fuel
      | ending => return ending) := by
  intro s s' code code' hs h
  obtain ⟨first, s₁, hfirst, h₁⟩ := bind_eq_ok.1 h
  obtain ⟨hs₁, -⟩ := hax hs hfirst
  obtain ⟨-, hgrows⟩ := haxs _ hs₁ h₁
  obtain ⟨more, hmore, hplays⟩ := hxs hs₁ h₁
  refine ⟨first.toList ++ more, ?_, fun main exits pos fuel hcovers hlies => ?_⟩
  · rw [hmore, Array.toList_append, List.append_assoc]
  · obtain ⟨hleft, hright⟩ := lieAt_append.1 hlies
    rw [itemsSize_append, ← Nat.add_assoc]
    refine (hx hs hfirst main exits pos fuel (hcovers.mono hgrows) hleft).exited fun ending => ?_
    cases ending with
    | normal => exact hplays main exits _ fuel hcovers hright
    | «break» => exact .done ⟨rfl, rfl⟩
    | «continue» => exact .done ⟨rfl, rfl⟩

omit hsteps in
theorem DoesMany.does {xs : Fragment → CompileM Fragment} {as : Nat → Eval Ending}
    (h : DoesMany su xs as) : Does su (xs #[]) as := by
  intro s s' code hs hxs
  obtain ⟨more, hmore, hplays⟩ := h hs hxs
  rw [hmore]
  exact hplays

end

section
variable {su : Surroundings} {builtins : Std.HashSet String}

theorem compileStmt_keepsTop {st : Stmt} (h : st.Unsigned) (inLoop : Bool) :
    KeepsTop (compileStmt builtins inLoop st) :=
  (compileStmt_runs inLoop st).keepsTop (compileStmt_keepsUnsigned inLoop st h)

theorem compileStmts_keepsTop {body : List Stmt} (h : BodyUnsigned body) (inLoop : Bool)
    (code : Fragment) : KeepsTop (compileStmts builtins inLoop body code) :=
  (compileStmts_runs inLoop body).keepsTop (compileStmts_keepsUnsigned inLoop body h) code

mutual

/-- The code of a statement without functions plays its execution. -/
theorem compileStmt_does (hsteps : su.settings.maxSteps = none) (inLoop : Bool) :
    ∀ st : Stmt, st.isFunctionFree = true → st.Unsigned →
    Does su (compileStmt builtins inLoop st) (fun fuel => st.exec su.host fuel)
  | .var span name value, hfree, h => by
    have hvalue : Means su (compileExpr builtins value) (value.eval su.host) :=
      compileExpr_means hsteps value hfree h
    have hkeeps : KeepsTop (compileExpr builtins value) := compileExpr_keepsTop h
    cases value with
    | func funcSpan params body => cases hfree
    | _ =>
      exact does_store hsteps hvalue hkeeps (fun _ _ _ hs h => declare_spec hs h)
        (.declare builtins name span) span
  | .assign span (.ident targetSpan name) value, hfree, h => by
    have hvalue : Means su (compileExpr builtins value) (value.eval su.host) :=
      compileExpr_means hsteps value hfree h.2
    have hkeeps : KeepsTop (compileExpr builtins value) := compileExpr_keepsTop h.2
    cases value with
    | func funcSpan params body => cases hfree
    | _ =>
      exact does_storeTo hsteps hvalue hkeeps (fun _ _ _ hs h => assignmentTarget_spec hs h)
        (.assignmentTarget builtins name targetSpan) span
  | .assign _ (.index _ object key) value, hfree, h => by
    obtain ⟨htarget, hvalue⟩ := Bool.and_eq_true_iff.1 hfree
    obtain ⟨hobject, hkey⟩ := Bool.and_eq_true_iff.1 htarget
    exact does_storeSubscr hsteps (compileExpr_means hsteps value hvalue h.2)
      (compileExpr_means hsteps object hobject h.1.1) (compileExpr_means hsteps key hkey h.1.2)
      (compileExpr_keepsTop h.2) (compileExpr_keepsTop h.1.1) (compileExpr_keepsTop h.1.2)
  | .assign span (.attr _ object name) value, hfree, h => by
    obtain ⟨hobject, hvalue⟩ := Bool.and_eq_true_iff.1 hfree
    exact does_storeAttr hsteps (compileExpr_means hsteps value hvalue h.2)
      (compileExpr_means hsteps object hobject h.1) (compileExpr_keepsTop h.2)
      (compileExpr_keepsTop h.1) name span
  | .assign _ (.int ..) _, _, _ | .assign _ (.float ..) _, _, _ | .assign _ (.str ..) _, _, _
  | .assign _ (.bool ..) _, _, _ | .assign _ (.nil ..) _, _, _ | .assign _ (.list ..) _, _, _
  | .assign _ (.map ..) _, _, _ | .assign _ (.set ..) _, _, _ | .assign _ (.unary ..) _, _, _
  | .assign _ (.binary ..) _, _, _ | .assign _ (.logical ..) _, _, _ | .assign _ (.call ..) _, _, _
  | .assign _ (.func ..) _, _, _ => does_fail .invalidTarget _
  | .funcDef .., hfree, _ => by cases hfree
  | .return span none, _, _ => does_return span
  | .return span (some value), _, _ => does_return span
  | .if span cond thenBody none, hfree, h => by
    obtain ⟨hcond, hthen⟩ := Bool.and_eq_true_iff.1 hfree
    exact does_if hsteps (compileExpr_means hsteps cond hcond h.1)
      (compileStmts_does hsteps inLoop thenBody hthen h.2).does (compileExpr_keepsTop h.1)
      (compileStmts_keepsTop h.2 inLoop _) span
  | .if span cond thenBody (some elseBody), hfree, h => by
    obtain ⟨hboth, helse⟩ := Bool.and_eq_true_iff.1 hfree
    obtain ⟨hcond, hthen⟩ := Bool.and_eq_true_iff.1 hboth
    exact does_ifElse hsteps (compileExpr_means hsteps cond hcond h.1)
      (compileStmts_does hsteps inLoop thenBody hthen h.2.1).does
      (compileStmts_does hsteps inLoop elseBody helse h.2.2).does (compileExpr_keepsTop h.1)
      (compileStmts_keepsTop h.2.1 inLoop _) (compileStmts_keepsTop h.2.2 inLoop _) span
  | .while span cond body, hfree, h => by
    obtain ⟨hcond, hbody⟩ := Bool.and_eq_true_iff.1 hfree
    exact does_while hsteps (compileExpr_means hsteps cond hcond h.1)
      (compileStmts_does hsteps true body hbody h.2).does (compileExpr_keepsTop h.1)
      (compileStmts_keepsTop h.2 true _) span
  | .break _, _, _ => does_hole hsteps .break fun _ _ => rfl
  | .continue _, _, _ => does_hole hsteps .continue fun _ _ => rfl
  | .print _ value, hfree, h =>
    does_unary (compileExpr_means hsteps value hfree h) fun _ _ _ _ hdecoded =>
      .print hsteps hdecoded
  | .delete _ object key, hfree, h => by
    obtain ⟨hobject, hkey⟩ := Bool.and_eq_true_iff.1 hfree
    exact does_binary (compileExpr_means hsteps object hobject h.1)
      (compileExpr_means hsteps key hkey h.2) (compileExpr_keepsTop h.1)
      (compileExpr_keepsTop h.2) fun _ _ _ _ _ hdecoded => .deleteSubscript hsteps hdecoded
  | .expr _ value, hfree, h =>
    does_unary (f := fun _ => pure ()) (compileExpr_means hsteps value hfree h)
      fun _ _ _ _ hdecoded => .popTop hsteps hdecoded

theorem compileStmts_does (hsteps : su.settings.maxSteps = none) (inLoop : Bool) :
    ∀ body : List Stmt, bodyFunctionFree body = true → BodyUnsigned body →
    DoesMany su (compileStmts builtins inLoop body) (fun fuel => execAll su.host fuel body)
  | [], _, _ => doesMany_nil
  | st :: rest, hfree, h => by
    obtain ⟨hst, hrest⟩ := Bool.and_eq_true_iff.1 hfree
    exact doesMany_cons (compileStmt_does hsteps inLoop st hst h.1)
      (compileStmts_does hsteps inLoop rest hrest h.2)
      (compileStmt_keepsTop h.1 inLoop) (compileStmts_keepsTop h.2 inLoop)

end

end

end Ember
