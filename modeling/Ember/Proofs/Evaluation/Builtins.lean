import Ember.Proofs.Evaluation.Statements

/-! Evaluations that come across no functions but builtins. Where the names and the heap hold no
function, closure or cell and the host makes none, a program without functions makes none either, so
its evaluation never goes beyond what such programs can do. -/
namespace Ember
set_option autoImplicit false

/-- The functions that may occur are the builtins. -/
def builtinsOnly : Policy := ⟨fun v => v.isPlain = true, fun _ h _ => h⟩

structure Scene.Obeys (P : Policy) (σ : Scene) : Prop where
  globals : σ.globals.Obeys P
  heap : σ.heap.Obeys P

/-- The evaluation leaves only builtins behind and calls nothing else; `Q` holds of its value. -/
def Eval.Stays {α : Type} (x : Eval α) (Q : α → Prop) : Prop :=
  ∀ σ : Scene, σ.Obeys builtinsOnly → match x σ with
    | .ok a σ' => σ'.Obeys builtinsOnly ∧ Q a
    | .error stop _ => stop ≠ .beyond

/-- The value is not a function, a closure or a cell, and holds none. -/
abbrev Value.Plain (v : Value) : Prop := v.Obeys builtinsOnly

namespace Eval.Stays

variable {α β : Type} {Q : α → Prop} {R : β → Prop}

theorem pure {a : α} (h : Q a) : Stays (pure a) Q := fun _ hσ => ⟨hσ, h⟩

theorem fault {f : Fault} : Stays (throw (.fault f) : Eval α) Q := fun _ _ => nofun

theorem bind {x : Eval α} {k : α → Eval β} (hx : Stays x Q) (hk : ∀ a, Q a → Stays (k a) R) :
    Stays (x >>= k) R := by
  intro σ hσ
  have hfirst := hx σ hσ
  show match EStateM.bind x k σ with
    | .ok b σ' => σ'.Obeys builtinsOnly ∧ R b
    | .error stop _ => stop ≠ .beyond
  unfold EStateM.bind
  cases hr : x σ with
  | error stop σ' =>
    rw [hr] at hfirst
    exact hfirst
  | ok a σ' =>
    rw [hr] at hfirst
    exact hk a hfirst.2 σ' hfirst.1

theorem ite {c : Prop} [Decidable c] {x y : Eval α} (hx : Stays x Q) (hy : Stays y Q) :
    Stays (if c then x else y) Q := by
  split
  · exact hx
  · exact hy

/-! ## What constructs do -/

theorem onHeap {x : OnHeap Fault α} (hx : Keeps builtinsOnly x Q Fault.Ordinary) :
    Stays (Eval.onHeap x) Q := by
  intro σ hσ
  have := hx σ.heap hσ.heap
  unfold Eval.onHeap
  cases hr : x σ.heap with
  | ok a heap =>
    rw [hr] at this
    exact ⟨⟨hσ.globals, this.1.obeys⟩, this.2⟩
  | error f heap => exact nofun

theorem ask {f : Heap → Except Fault α}
    (hf : ∀ h : Heap, h.Obeys builtinsOnly → Promises (f h) Q Fault.Ordinary) :
    Stays (Eval.ask f) Q := by
  intro σ hσ
  have := hf σ.heap hσ.heap
  unfold Eval.ask
  cases hr : f σ.heap with
  | ok a =>
    rw [hr] at this
    exact ⟨hσ, this⟩
  | error e => exact nofun

theorem truth (v : Value) : Stays (Eval.truth v) fun _ => True :=
  ask fun _ _ => trivial

theorem load (name : String) : Stays (Eval.load name) Value.Plain := by
  intro σ hσ
  unfold Eval.load
  cases hv : σ.globals.get? name with
  | some v => exact ⟨hσ, hσ.globals name v hv⟩
  | none => exact nofun

theorem store (name : String) {v : Value} (hv : v.Plain) :
    Stays (Eval.store name v) fun _ => True :=
  fun _ hσ => ⟨⟨hσ.globals.set name hv, hσ.heap⟩, trivial⟩

theorem print (v : Value) : Stays (Eval.print v) fun _ => True :=
  fun _ hσ => ⟨⟨hσ.globals, hσ.heap⟩, trivial⟩

/-- What is called is a builtin, or cannot be called. -/
theorem call {host : Array HostFunction} (hhost : ObedientHost builtinsOnly host) {callee : Value}
    (hcallee : callee.Plain) {args : Array Value} (hargs : ∀ v ∈ args, v.Plain) :
    Stays (Eval.call host callee args) Value.Plain := by
  cases callee with
  | function f => cases hcallee
  | closure id f cells => cases hcallee
  | builtin id b =>
    intro σ hσ
    obtain ⟨hvalue, hheap⟩ := hhost.call b hargs (s := ⟨σ.heap, σ.world⟩) hσ.heap
    unfold Eval.call
    dsimp only
    rcases hr : b.call host args ⟨σ.heap, σ.world⟩ with ⟨v, heap, world⟩
    rw [hr] at hvalue hheap
    cases v with
    | error kind message => exact nofun
    | _ => exact ⟨⟨hσ.globals, hheap⟩, hvalue⟩
  | _ => exact fault

theorem mapOf {pairs : List (Value × Value)} (h : ∀ e ∈ pairs, e.1.Plain ∧ e.2.Plain) :
    Stays (Eval.ask fun _ => Eval.mapOf pairs) fun entries => ∀ e ∈ entries.entries, e.2.Plain := by
  refine ask fun _ _ => ?_
  rw [Eval.mapOf, ← entriesOf_eq]
  refine entriesOf_promises (fun v hv => ?_) fun e he => absurd he (Array.not_mem_empty e)
  obtain ⟨e, he, hv⟩ := List.mem_flatMap.1 hv
  rcases List.mem_pair.1 hv with rfl | rfl
  · exact (h e he).1
  · exact (h e he).2

theorem setOf (values : List Value) :
    Stays (Eval.ask fun _ => Eval.setOf values) fun _ => True := by
  refine ask fun _ _ => ?_
  rw [Eval.setOf, ← membersOf_eq]
  exact membersOf_promises values _

end Eval.Stays

open CompileM Eval

theorem UnaryOperator.apply_stays (op : UnaryOperator) (v : Value) :
    Stays (op.apply v) Value.Plain := by
  cases op with
  | negate => exact .ask fun _ _ => negate_promises v
  | plus => exact .ask fun _ _ => affirm_promises v
  | invert => exact .ask fun _ _ => complement_promises v
  | not => exact .bind (.truth v) fun _ _ => .pure rfl

theorem Operation.apply_stays (op : Operation) (v w : Value) :
    Stays (op.apply v w) Value.Plain := by
  cases op with
  | arithmetic op => exact .onHeap (binary_keeps op v w)
  | comparison op => exact .ask fun h _ => comparison_promises h op v w

theorem Connective.join_stays (op : Connective) {left right : Eval Value}
    (hleft : Stays left Value.Plain) (hright : Stays right Value.Plain) :
    Stays (op.join left right) Value.Plain := by
  have hlast : Stays (do return .bool (← Eval.truth (← right))) Value.Plain :=
    .bind hright fun w _ => .bind (.truth w) fun _ _ => .pure rfl
  cases op with
  | and => exact .bind hleft fun v _ => .bind (.truth v) fun _ _ => .ite hlast (.pure rfl)
  | or => exact .bind hleft fun v _ => .bind (.truth v) fun _ _ => .ite (.pure rfl) hlast

section
variable {host : Array HostFunction}

/-! ## Expressions -/

mutual

theorem Expr.eval_stays (hhost : ObedientHost builtinsOnly host) :
    ∀ e : Expr, e.isFunctionFree = true → Stays (e.eval host) Value.Plain
  | .int .., _ | .float .., _ | .str .., _ | .bool .., _ | .nil _, _ => .pure rfl
  | .ident _ name, _ => .load name
  | .list _ items, h =>
    .bind (evalAll_stays hhost items h) fun _ hvalues => .onHeap
      (keeps_newList fun v hv => hvalues v (List.mem_toArray.1 hv))
  | .set _ items, h =>
    .bind (evalAll_stays hhost items h) fun _ _ => .bind (.setOf _) fun _ _ =>
      .onHeap (keeps_newSet _)
  | .map _ entries, h =>
    .bind (evalPairs_stays hhost entries h) fun _ hpairs => .bind (.mapOf hpairs) fun _ hentries =>
      .onHeap (keeps_newMap hentries)
  | .unary _ op operand, h => .bind (Expr.eval_stays hhost operand h) fun v _ => op.apply_stays v
  | .binary _ op left right, h => by
    obtain ⟨hleft, hright⟩ := Bool.and_eq_true_iff.1 h
    exact .bind (Expr.eval_stays hhost left hleft) fun v _ =>
      .bind (Expr.eval_stays hhost right hright) fun w _ => op.apply_stays v w
  | .logical _ op left right, h => by
    obtain ⟨hleft, hright⟩ := Bool.and_eq_true_iff.1 h
    exact op.join_stays (Expr.eval_stays hhost left hleft) (Expr.eval_stays hhost right hright)
  | .call _ callee args, h => by
    obtain ⟨hcallee, hargs⟩ := Bool.and_eq_true_iff.1 h
    exact .bind (Expr.eval_stays hhost callee hcallee) fun _ hf =>
      .bind (evalAll_stays hhost args hargs) fun _ hvalues =>
        .call hhost hf fun v hv => hvalues v (List.mem_toArray.1 hv)
  | .index _ object key, h => by
    obtain ⟨hobject, hkey⟩ := Bool.and_eq_true_iff.1 h
    exact .bind (Expr.eval_stays hhost object hobject) fun container _ =>
      .bind (Expr.eval_stays hhost key hkey) fun k _ =>
        .ask fun _ hheap => getItem_promises hheap container k
  | .attr _ object name, h =>
    .bind (Expr.eval_stays hhost object h) fun v _ =>
      .ask fun _ hheap => getAttribute_promises hheap v name
  | .func .., h => by cases h

theorem evalAll_stays (hhost : ObedientHost builtinsOnly host) :
    ∀ items : List Expr, allFunctionFree items = true →
      Stays (evalAll host items) fun values => ∀ v ∈ values, v.Plain
  | [], _ => .pure nofun
  | e :: rest, h => by
    obtain ⟨he, hrest⟩ := Bool.and_eq_true_iff.1 h
    exact .bind (Expr.eval_stays hhost e he) fun v hv => .bind (evalAll_stays hhost rest hrest)
      fun _ hvalues => .pure (List.forall_mem_cons.2 ⟨hv, hvalues⟩)

theorem evalPairs_stays (hhost : ObedientHost builtinsOnly host) :
    ∀ entries : List (Expr × Expr), pairsFunctionFree entries = true →
    Stays (evalPairs host entries) fun pairs => ∀ e ∈ pairs, e.1.Plain ∧ e.2.Plain
  | [], _ => .pure nofun
  | (k, v) :: rest, h => by
    obtain ⟨hboth, hrest⟩ := Bool.and_eq_true_iff.1 h
    obtain ⟨hk, hv⟩ := Bool.and_eq_true_iff.1 hboth
    exact .bind (Expr.eval_stays hhost k hk) fun _ hkey => .bind (Expr.eval_stays hhost v hv)
      fun _ hvalue => .bind (evalPairs_stays hhost rest hrest)
        fun _ hpairs => .pure (List.forall_mem_cons.2 ⟨⟨hkey, hvalue⟩, hpairs⟩)

end

/-! ## Statements -/

theorem Eval.loop_stays {test : Eval Bool} {body : Eval Ending}
    (htest : Stays test fun _ => True) (hbody : Stays body fun _ => True) (fuel : Nat) :
    Stays (Eval.loop test body fuel) fun _ => True := by
  induction fuel with
  | zero => exact fun _ _ => nofun
  | succ fuel ih =>
    rw [Eval.loop]
    refine .bind htest fun holds _ => .ite (.bind hbody fun ending _ => ?_) (.pure trivial)
    cases ending with
    | «break» => exact .pure trivial
    | normal => exact ih
    | «continue» => exact ih

mutual

/-- A statement that can be compiled at the top level returns nothing and assigns only to what can
be assigned to. -/
theorem Stmt.exec_stays {builtins : Std.HashSet String} {s s' : CompileState} {code : Fragment}
    (hhost : ObedientHost builtinsOnly host) (fuel : Nat) (inLoop : Bool) (hs : TopLevel s) :
    ∀ st : Stmt, st.isFunctionFree = true →
    st.Unsigned → compileStmt builtins inLoop st s = .ok (code, s') →
    Stays (st.exec host fuel) fun _ => True
  | .var _ name value, hfree, _, _ =>
    .bind (value.eval_stays hhost hfree) fun _ hv => .bind (.store name hv) fun _ _ => .pure trivial
  | .assign _ (.ident _ name) value, hfree, _, _ =>
    .bind (value.eval_stays hhost hfree) fun _ hv => .bind (.store name hv) fun _ _ => .pure trivial
  | .assign _ (.index _ object key) value, hfree, _, _ => by
    obtain ⟨htarget, hvalue⟩ := Bool.and_eq_true_iff.1 hfree
    obtain ⟨hobject, hkey⟩ := Bool.and_eq_true_iff.1 htarget
    exact .bind (value.eval_stays hhost hvalue) fun _ hv =>
      .bind (object.eval_stays hhost hobject) fun container _ =>
        .bind (key.eval_stays hhost hkey) fun k _ =>
          .bind (.onHeap (setItem_keeps hv container k)) fun _ _ => .pure trivial
  | .assign _ (.attr _ object name) value, hfree, _, _ => by
    obtain ⟨hobject, hvalue⟩ := Bool.and_eq_true_iff.1 hfree
    exact .bind (value.eval_stays hhost hvalue) fun _ hv =>
      .bind (object.eval_stays hhost hobject) fun target _ =>
        .bind (.onHeap (setAttribute_keeps hv target name)) fun _ _ => .pure trivial
  | .assign _ (.int ..) _, _, _, h | .assign _ (.float ..) _, _, _, h
  | .assign _ (.str ..) _, _, _, h | .assign _ (.bool ..) _, _, _, h
  | .assign _ (.nil ..) _, _, _, h | .assign _ (.list ..) _, _, _, h
  | .assign _ (.map ..) _, _, _, h | .assign _ (.set ..) _, _, _, h
  | .assign _ (.unary ..) _, _, _, h | .assign _ (.binary ..) _, _, _, h
  | .assign _ (.logical ..) _, _, _, h | .assign _ (.call ..) _, _, _, h
  | .assign _ (.func ..) _, _, _, h => absurd h fail_ne_ok
  | .funcDef .., hfree, _, _ => by cases hfree
  | .return _ none, _, _, h | .return _ (some _), _, _, h => (hs.not_return h).elim
  | .if _ cond thenBody none, hfree, hunsigned, h => by
    obtain ⟨hcond, hthen⟩ := Bool.and_eq_true_iff.1 hfree
    obtain ⟨test, s₁, htest, h₁⟩ := bind_eq_ok.1 h
    obtain ⟨first, s₂, hfirst, -⟩ := bind_eq_ok.1 h₁
    obtain ⟨hs₁, -⟩ := compileExpr_keepsTop hunsigned.1 hs htest
    exact .bind (cond.eval_stays hhost hcond) fun v _ => .bind (.truth v) fun _ _ =>
      .ite (execAll_stays hhost fuel inLoop hs₁ thenBody hthen hunsigned.2 hfirst) (.pure trivial)
  | .if _ cond thenBody (some elseBody), hfree, hunsigned, h => by
    obtain ⟨hboth, helse⟩ := Bool.and_eq_true_iff.1 hfree
    obtain ⟨hcond, hthen⟩ := Bool.and_eq_true_iff.1 hboth
    obtain ⟨test, s₁, htest, h₁⟩ := bind_eq_ok.1 h
    obtain ⟨first, s₂, hfirst, h₂⟩ := bind_eq_ok.1 h₁
    obtain ⟨toElse, s₃, htoElse, h₃⟩ := bind_eq_ok.1 h₂
    obtain ⟨-, rfl, -⟩ := emitJump_eq_ok htoElse
    obtain ⟨second, s₄, hsecond, -⟩ := bind_eq_ok.1 h₃
    obtain ⟨hs₁, -⟩ := compileExpr_keepsTop hunsigned.1 hs htest
    obtain ⟨hs₂, -⟩ := compileStmts_keepsTop hunsigned.2.1 inLoop #[] hs₁ hfirst
    exact .bind (cond.eval_stays hhost hcond) fun v _ => .bind (.truth v) fun _ _ =>
      .ite (execAll_stays hhost fuel inLoop hs₁ thenBody hthen hunsigned.2.1 hfirst)
        (execAll_stays hhost fuel inLoop hs₂ elseBody helse hunsigned.2.2 hsecond)
  | .while _ cond body, hfree, hunsigned, h => by
    obtain ⟨hcond, hbody⟩ := Bool.and_eq_true_iff.1 hfree
    obtain ⟨inner, s₁, hinner, -⟩ := bind_eq_ok.1 h
    exact loop_stays (.bind (cond.eval_stays hhost hcond) fun v _ => .truth v)
      (execAll_stays hhost fuel true hs body hbody hunsigned.2 hinner) fuel
  | .break _, _, _, _ | .continue _, _, _, _ => .pure trivial
  | .print _ value, hfree, _, _ =>
    .bind (value.eval_stays hhost hfree) fun v _ => .bind (.print v) fun _ _ => .pure trivial
  | .delete _ object key, hfree, _, _ => by
    obtain ⟨hobject, hkey⟩ := Bool.and_eq_true_iff.1 hfree
    exact .bind (object.eval_stays hhost hobject) fun container _ =>
      .bind (key.eval_stays hhost hkey) fun k _ =>
        .bind (.onHeap (deleteItem_keeps container k)) fun _ _ => .pure trivial
  | .expr _ value, hfree, _, _ => .bind (value.eval_stays hhost hfree) fun _ _ => .pure trivial

theorem execAll_stays {builtins : Std.HashSet String} {s s' : CompileState} {code code' : Fragment}
    (hhost : ObedientHost builtinsOnly host) (fuel : Nat) (inLoop : Bool) (hs : TopLevel s) :
    ∀ body : List Stmt, bodyFunctionFree body = true → BodyUnsigned body →
    compileStmts builtins inLoop body code s = .ok (code', s') →
    Stays (execAll host fuel body) fun _ => True
  | [], _, _, _ => .pure trivial
  | st :: rest, hfree, hunsigned, h => by
    obtain ⟨hst, hrest⟩ := Bool.and_eq_true_iff.1 hfree
    obtain ⟨more, s₁, hmore, h₁⟩ := bind_eq_ok.1 h
    obtain ⟨hs₁, -⟩ := compileStmt_keepsTop hunsigned.1 inLoop hs hmore
    refine .bind (st.exec_stays hhost fuel inLoop hs hst hunsigned.1 hmore) fun ending _ => ?_
    cases ending with
    | normal => exact execAll_stays hhost fuel inLoop hs₁ rest hrest hunsigned.2 h₁
    | «break» => exact .pure trivial
    | «continue» => exact .pure trivial

end

theorem evalChunk_stays (hhost : ObedientHost builtinsOnly host) {builtins : Std.HashSet String}
    {s s' : CompileState} {statements : List Stmt} {code code' : Fragment} (fuel : Nat)
    (hs : TopLevel s)
    (hfree : bodyFunctionFree statements = true) (hunsigned : BodyUnsigned statements)
    (h : compileChunk builtins statements code s = .ok (code', s')) :
    Stays (evalChunk host fuel statements) Value.Plain := by
  fun_induction compileChunk builtins statements code generalizing s with
  | case1 code => exact .pure rfl
  | case2 span value code => exact value.eval_stays hhost (Bool.and_eq_true_iff.1 hfree).1
  | case3 st rest code hne ih =>
    obtain ⟨hst, hrest⟩ := Bool.and_eq_true_iff.1 hfree
    obtain ⟨more, s₁, hmore, h₁⟩ := bind_eq_ok.1 h
    obtain ⟨hs₁, -⟩ := compileStmt_keepsTop hunsigned.1 false hs hmore
    rw [evalChunk]
    · exact .bind (st.exec_stays hhost fuel false hs hst hunsigned.1 hmore) fun _ _ =>
        ih more hs₁ hrest hunsigned.2 h₁
    · exact hne

end

end Ember
