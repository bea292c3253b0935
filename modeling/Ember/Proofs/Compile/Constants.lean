import Ember.Proofs.Ast.Numbers
import Ember.Proofs.Compile.Chunks

/-! The numbers among the constants of a session. They come from the programs that were compiled, so
none of them has a sign if those programs were read. -/
namespace Ember
set_option autoImplicit false

open CompileM

/-- No number among the constants has a sign. -/
def Pools.Unsigned (p : Pools) : Prop := ∀ x, Value.float x ∈ p.constants → Ember.Unsigned x

/-- The part of the compiler adds no number with a sign. -/
def KeepsUnsigned {α : Type} (x : CompileM α) : Prop :=
  ∀ ⦃s s' : CompileState⦄ ⦃a : α⦄, s.pools.Unsigned → x s = .ok (a, s') → s'.pools.Unsigned

section
variable {α β : Type}

namespace KeepsUnsigned

/-- Parts that leave the constants alone. -/
theorem of_constants {x : CompileM α}
    (h : ∀ s s' a, x s = .ok (a, s') → s'.pools.constants = s.pools.constants) :
    KeepsUnsigned x := by
  intro s s' a hs hx y hy
  rw [h s s' a hx] at hy
  exact hs y hy

theorem bind {x : CompileM α} {k : α → CompileM β} (hx : KeepsUnsigned x)
    (hk : ∀ a, KeepsUnsigned (k a)) : KeepsUnsigned (x >>= k) := by
  intro s s' b hs h
  obtain ⟨a, s₁, ha, hb⟩ := bind_eq_ok.1 h
  exact hk a (hx hs ha) hb

theorem pure (a : α) : KeepsUnsigned (pure a) := by
  intro s s' b hs h
  obtain ⟨-, rfl⟩ := pure_eq_ok.1 h
  exact hs

theorem fail (fault : CompileFault) (span : Span) : KeepsUnsigned (fail fault span : CompileM α) :=
  fun _ _ _ _ h => absurd h fail_ne_ok

theorem ite {c : Prop} [Decidable c] {x y : CompileM α} (hx : KeepsUnsigned x)
    (hy : KeepsUnsigned y) : KeepsUnsigned (if c then x else y) := by
  split
  · exact hx
  · exact hy

theorem emit (op : Opcode) (operands : List Nat) (span : Span) :
    KeepsUnsigned (emit op operands span) :=
  of_constants fun _ _ _ h => by rw [(emit_eq_ok h).2.1]

theorem emitJump (op : Opcode) (distance : Nat) (span : Span) :
    KeepsUnsigned (emitJump op distance span) :=
  of_constants fun _ _ _ h => by rw [(emitJump_eq_ok h).2.1]

theorem checkCount (count : Nat) (what : String) (limit : Nat) (span : Span) :
    KeepsUnsigned (checkCount count what limit span) :=
  of_constants fun _ _ _ h => by rw [(checkCount_eq_ok h).2]

theorem get : KeepsUnsigned (get : CompileM CompileState) := by
  intro s s' a hs h
  obtain ⟨-, rfl⟩ := get_eq_ok.1 h
  exact hs

theorem modify {f : CompileState → CompileState}
    (hf : ∀ s, s.pools.Unsigned → (f s).pools.Unsigned) :
    KeepsUnsigned (modify f : CompileM Unit) := by
  intro s s' a hs h
  cases h
  exact hf s hs

theorem addConstant {v : Value} (hv : ∀ x, v = .float x → Unsigned x) (span : Span) :
    KeepsUnsigned (addConstant v span) := by
  refine get.bind fun s => ?_
  split
  · exact .pure _
  · refine get.bind fun s => .ite (bind (.modify fun s hs x hx => ?_) fun u => .pure _) (.fail _ _)
    rcases Array.mem_push.1 hx with hx | hx
    · exact hs x hx
    · exact hv x hx.symm

theorem addName (name : String) (span : Span) : KeepsUnsigned (addName name span) := by
  refine get.bind fun s => ?_
  split
  · exact .pure _
  · exact get.bind fun s => .ite (bind (.modify fun s hs => hs) fun u => .pure _) (.fail _ _)

theorem mapM {k : α → CompileM β} (hk : ∀ a, KeepsUnsigned (k a)) (items : List α) :
    KeepsUnsigned (items.mapM k) := by
  induction items with
  | nil => exact .pure _
  | cons a rest ih =>
    rw [List.mapM_cons]
    exact (hk a).bind fun b => ih.bind fun bs => .pure _

/-! ## Variables -/

theorem resolve (name : String) : KeepsUnsigned (resolve name) :=
  of_constants fun _ _ _ h => by cases h; rfl

theorem inFunction : KeepsUnsigned inFunction :=
  of_constants fun _ _ _ h => by rw [(inFunction_eq_ok h).1]

theorem declare (builtins : Std.HashSet String) (name : String) (span : Span) :
    KeepsUnsigned (declare builtins name span) := by
  refine inFunction.bind fun b => .ite (.fail _ _) (of_constants fun s s' symbol h => ?_)
  obtain ⟨pools, scopes, nextId⟩ := s
  cases scopes with
  | nil => cases h
  | cons scope outer =>
    unfold declareHere at h
    dsimp only at h
    split at h
    · cases h
      rfl
    · cases h

theorem assignmentTarget (builtins : Std.HashSet String) (name : String) (span : Span) :
    KeepsUnsigned (assignmentTarget builtins name span) := by
  refine inFunction.bind fun b => .ite (declare builtins name span) ?_
  refine (resolve name).bind fun symbol => ?_
  split
  · refine bind (of_constants fun _ _ _ h => by cases h; rfl) fun declared => ?_
    exact .ite (.pure _) (.ite (.fail _ _) (.fail _ _))
  · exact .pure _

theorem accessSymbol (slot free global top : Opcode) (symbol : Symbol) (span : Span) :
    KeepsUnsigned (accessSymbol slot free global top symbol span) := by
  cases symbol with
  | slot i => exact emit _ _ _
  | free i => exact emit _ _ _
  | global name => exact (addName name span).bind fun i => emit _ _ _
  | name name => exact (addName name span).bind fun i => emit _ _ _

theorem loadSymbol (symbol : Symbol) (span : Span) : KeepsUnsigned (loadSymbol symbol span) := by
  rw [loadSymbol_eq]
  exact accessSymbol _ _ _ _ _ _

theorem storeSymbol (symbol : Symbol) (span : Span) : KeepsUnsigned (storeSymbol symbol span) := by
  rw [storeSymbol_eq]
  exact accessSymbol _ _ _ _ _ _

/-! ## Functions -/

theorem loadFunction (g : Routine Value) (span : Span) : KeepsUnsigned (loadFunction g span) := by
  refine (addConstant (v := .function g) nofun span).bind fun i => .ite ?_ ?_
  · exact (emit _ _ _).bind fun item => .pure _
  · refine bind ?_ fun cells => (emit _ _ _).bind fun item => .pure _
    rw [Array.mapM_eq_mapM_toList, map_eq_pure_bind]
    refine bind (mapM (fun f => ?_) _) fun cells => .pure _
    unfold makeCell
    split
    · exact emit _ _ _
    · exact emit _ _ _

/-- The constants of a function are its own. -/
theorem compileFunction (name : String) (params : List String) (span : Span)
    (body : CompileM Fragment) : KeepsUnsigned (compileFunction name params span body) := by
  intro s s' code hs h
  unfold Ember.compileFunction at h
  obtain ⟨u, s₁, hcount, h₁⟩ := bind_eq_ok.1 h
  obtain ⟨-, rfl⟩ := checkCount_eq_ok hcount
  obtain ⟨scope, s₂, hparams, h₂⟩ := bind_eq_ok.1 h₁
  obtain ⟨rfl, -⟩ := parameterScope_spec hparams
  obtain ⟨outer, s₃, henter, h₃⟩ := bind_eq_ok.1 h₂
  cases henter
  obtain ⟨inner, s₄, hinner, h₄⟩ := bind_eq_ok.1 h₃
  obtain ⟨g, s₅, hleave, h₅⟩ := bind_eq_ok.1 h₄
  cases hleave
  have hs₅ : (CompileState.mk s₂.pools (s₄.scopes.drop 1) (s₄.nextId + 1)).pools.Unsigned := hs
  exact loadFunction _ span hs₅ h₅

end KeepsUnsigned

end

/-! ## Programs -/

section
variable {builtins : Std.HashSet String}

theorem keepsUnsigned_literal {v : Value} (hv : ∀ x, v = .float x → Unsigned x) (span : Span) :
    KeepsUnsigned (loadConstant v span) :=
  .bind (.addConstant hv span) fun _ => .bind (.emit _ _ _) fun _ => .pure _

theorem keepsUnsigned_joinConnective (op : Connective) (left right : Fragment) (span : Span) :
    KeepsUnsigned (joinConnective op left right span) := by
  unfold joinConnective
  cases op <;>
    exact .bind (.emitJump _ _ _) fun _ => .bind (.emitJump _ _ _) fun _ =>
      .bind (.emitJump _ _ _) fun _ => .pure _

mutual

theorem compileExpr_keepsUnsigned :
    ∀ e : Expr, e.Unsigned → KeepsUnsigned (compileExpr builtins e)
  | .int span n, _ => keepsUnsigned_literal (fun _ hx => by cases hx) span
  | .float span x, h => keepsUnsigned_literal (fun _ hx => by cases hx; exact h) span
  | .str span s, _ => keepsUnsigned_literal (fun _ hx => by cases hx) span
  | .bool _ true, _ | .bool _ false, _ | .nil _, _ => .pure _
  | .ident _ name, _ =>
    .bind (.resolve name) fun _ => .bind (.loadSymbol _ _) fun _ => .pure _
  | .list _ items, h | .set _ items, h =>
    .bind (.checkCount _ _ _ _) fun _ => .bind (compileExprs_keepsUnsigned items h _) fun _ =>
      .bind (.emit _ _ _) fun _ => .pure _
  | .map _ entries, h =>
    .bind (.checkCount _ _ _ _) fun _ => .bind (compileEntries_keepsUnsigned entries h _) fun _ =>
      .bind (.emit _ _ _) fun _ => .pure _
  | .unary _ _ operand, h => .bind (compileExpr_keepsUnsigned operand h) fun _ => .pure _
  | .binary _ _ left right, h =>
    .bind (compileExpr_keepsUnsigned left h.1) fun _ =>
      .bind (compileExpr_keepsUnsigned right h.2) fun _ => .pure _
  | .logical _ _ left right, h =>
    .bind (compileExpr_keepsUnsigned left h.1) fun _ =>
      .bind (compileExpr_keepsUnsigned right h.2) fun _ => keepsUnsigned_joinConnective _ _ _ _
  | .call _ callee args, h =>
    .bind (.checkCount _ _ _ _) fun _ => .bind (compileExpr_keepsUnsigned callee h.1) fun _ =>
      .bind (compileExprs_keepsUnsigned args h.2 _) fun _ => .bind (.emit _ _ _) fun _ => .pure _
  | .index _ object key, h =>
    .bind (compileExpr_keepsUnsigned object h.1) fun _ =>
      .bind (compileExpr_keepsUnsigned key h.2) fun _ => .pure _
  | .attr _ object name, h =>
    .bind (compileExpr_keepsUnsigned object h) fun _ => .bind (.addName name _) fun _ =>
      .bind (.emit _ _ _) fun _ => .pure _
  | .func _ _ _, _ => .compileFunction _ _ _ _

theorem compileExprs_keepsUnsigned : ∀ items : List Expr, AllUnsigned items →
    ∀ code, KeepsUnsigned (compileExprs builtins items code)
  | [], _, _ => .pure _
  | e :: rest, h, _ =>
    .bind (compileExpr_keepsUnsigned e h.1) fun _ => compileExprs_keepsUnsigned rest h.2 _

theorem compileEntries_keepsUnsigned : ∀ entries : List (Expr × Expr), EntriesUnsigned entries →
    ∀ code, KeepsUnsigned (compileEntries builtins entries code)
  | [], _, _ => .pure _
  | (k, v) :: rest, h, _ =>
    .bind (compileExpr_keepsUnsigned k h.1) fun _ =>
      .bind (compileExpr_keepsUnsigned v h.2.1) fun _ => compileEntries_keepsUnsigned rest h.2.2 _

end

mutual

theorem compileStmt_keepsUnsigned (inLoop : Bool) :
    ∀ st : Stmt, st.Unsigned → KeepsUnsigned (compileStmt builtins inLoop st)
  | .var _ name value, h => by
    have hvalue : KeepsUnsigned (compileExpr builtins value) := compileExpr_keepsUnsigned value h
    cases value with
    | func funcSpan params body =>
      exact .bind (.declare _ _ _) fun _ => .bind (.compileFunction _ _ _ _) fun _ =>
        .bind (.storeSymbol _ _) fun _ => .pure _
    | _ =>
      exact .bind hvalue fun _ => .bind (.declare _ _ _) fun _ =>
        .bind (.storeSymbol _ _) fun _ => .pure _
  | .assign _ (.ident _ name) value, h => by
    have hvalue : KeepsUnsigned (compileExpr builtins value) := compileExpr_keepsUnsigned value h.2
    cases value with
    | func funcSpan params body =>
      exact .bind (.assignmentTarget _ _ _) fun _ => .bind (.compileFunction _ _ _ _) fun _ =>
        .bind (.storeSymbol _ _) fun _ => .pure _
    | _ =>
      exact .bind (.assignmentTarget _ _ _) fun _ => .bind hvalue fun _ =>
        .bind (.storeSymbol _ _) fun _ => .pure _
  | .assign _ (.index _ object key) value, h =>
    .bind (compileExpr_keepsUnsigned value h.2) fun _ =>
      .bind (compileExpr_keepsUnsigned object h.1.1) fun _ =>
        .bind (compileExpr_keepsUnsigned key h.1.2) fun _ => .pure _
  | .assign _ (.attr _ object name) value, h =>
    .bind (compileExpr_keepsUnsigned value h.2) fun _ =>
      .bind (compileExpr_keepsUnsigned object h.1) fun _ => .bind (.addName name _) fun _ =>
        .bind (.emit _ _ _) fun _ => .pure _
  | .assign _ (.int ..) _, _ | .assign _ (.float ..) _, _ | .assign _ (.str ..) _, _
  | .assign _ (.bool ..) _, _ | .assign _ (.nil ..) _, _ | .assign _ (.list ..) _, _
  | .assign _ (.map ..) _, _ | .assign _ (.set ..) _, _ | .assign _ (.unary ..) _, _
  | .assign _ (.binary ..) _, _ | .assign _ (.logical ..) _, _ | .assign _ (.call ..) _, _
  | .assign _ (.func ..) _, _ => .fail _ _
  | .funcDef _ _ _ _, _ =>
    .bind (.declare _ _ _) fun _ => .bind (.compileFunction _ _ _ _) fun _ =>
      .bind (.storeSymbol _ _) fun _ => .pure _
  | .return _ none, _ => .bind .inFunction fun _ => .ite (.pure _) (.fail _ _)
  | .return _ (some value), h =>
    .bind .inFunction fun _ =>
      .ite (.bind (compileExpr_keepsUnsigned value h) fun _ => .pure _) (.fail _ _)
  | .if _ cond thenBody none, h =>
    .bind (compileExpr_keepsUnsigned cond h.1) fun _ =>
      .bind (compileStmts_keepsUnsigned inLoop thenBody h.2 _) fun _ =>
        .bind (.emitJump _ _ _) fun _ => .pure _
  | .if _ cond thenBody (some elseBody), h =>
    .bind (compileExpr_keepsUnsigned cond h.1) fun _ =>
      .bind (compileStmts_keepsUnsigned inLoop thenBody h.2.1 _) fun _ =>
        .bind (.emitJump _ _ _) fun _ =>
          .bind (compileStmts_keepsUnsigned inLoop elseBody h.2.2 _) fun _ =>
            .bind (.emitJump _ _ _) fun _ => .pure _
  | .while _ cond body, h =>
    .bind (compileStmts_keepsUnsigned true body h.2 _) fun _ =>
      .bind (.emitJump _ _ _) fun _ => .bind (compileExpr_keepsUnsigned cond h.1) fun _ =>
        .bind (.emit _ _ _) fun _ => .pure _
  | .break _, _ | .continue _, _ => .ite (.pure _) (.fail _ _)
  | .print _ value, h | .expr _ value, h =>
    .bind (compileExpr_keepsUnsigned value h) fun _ => .pure _
  | .delete _ object key, h =>
    .bind (compileExpr_keepsUnsigned object h.1) fun _ =>
      .bind (compileExpr_keepsUnsigned key h.2) fun _ => .pure _

theorem compileStmts_keepsUnsigned (inLoop : Bool) : ∀ body : List Stmt, BodyUnsigned body →
    ∀ code, KeepsUnsigned (compileStmts builtins inLoop body code)
  | [], _, _ => .pure _
  | st :: rest, h, _ =>
    .bind (compileStmt_keepsUnsigned inLoop st h.1) fun _ =>
      compileStmts_keepsUnsigned inLoop rest h.2 _

end

theorem compileChunk_keepsUnsigned {statements : List Stmt} (h : BodyUnsigned statements)
    (code : Fragment) : KeepsUnsigned (compileChunk builtins statements code) := by
  fun_induction compileChunk builtins statements code with
  | case1 code => exact .pure _
  | case2 span value code =>
    exact .bind (compileExpr_keepsUnsigned value h.1) fun _ => .pure _
  | case3 st rest code hne ih =>
    exact .bind (compileStmt_keepsUnsigned false st h.1) fun more => ih more h.2

end

/-! ## Sessions -/

namespace Compiler

/-- No constant of a session has a sign. -/
theorem unsigned_after {c : Compiler} (hc : c.pools.Unsigned) {programs : List Program}
    (h : ∀ p ∈ programs, p.Unsigned) : (c.after programs).pools.Unsigned := by
  induction programs generalizing c with
  | nil => exact hc
  | cons p rest ih =>
    have hrest : ∀ q ∈ rest, q.Unsigned := fun q hq => h q (List.mem_cons_of_mem p hq)
    rw [after]
    split
    · rename_i range c' hok
      refine ih ?_ hrest
      obtain ⟨fragment, s, hchunk, -, rfl⟩ := compile_eq_ok hok
      exact compileChunk_keepsUnsigned (h p List.mem_cons_self) #[] hc hchunk
    · exact ih hc hrest

end Compiler

end Ember
