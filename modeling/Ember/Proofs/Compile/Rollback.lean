import Ember.Proofs.Compile.Chunks

/-! Programs that are refused. Every part of the compiler only adds to the tables, also where it
stops in the middle of a function, a loop or an expression. So cutting the tables back to their
sizes before a program gives the compiler back as it was. -/
namespace Ember
set_option autoImplicit false

open CompileM

/-! ## Tables that are only added to -/

/-- Names may have been declared at the top level, and nothing else of it has changed. -/
structure Scope.Appended (a b : Scope) : Prop where
  name : b.name = a.name
  kind : b.kind = a.kind
  declared : a.declared.toList <+: b.declared.toList
  settled : a.kind = .topLevel → b.locals = a.locals ∧ b.captured = a.captured

theorem Scope.Appended.refl (a : Scope) : Appended a a :=
  ⟨rfl, rfl, List.prefix_refl _, fun _ => ⟨rfl, rfl⟩⟩

theorem Scope.Appended.trans {a b c : Scope} (hab : Appended a b) (hbc : Appended b c) :
    Appended a c where
  name := hbc.name.trans hab.name
  kind := hbc.kind.trans hab.kind
  declared := hab.declared.trans hbc.declared
  settled htop := by
    obtain ⟨hlocals, hcaptured⟩ := hab.settled htop
    obtain ⟨hlocals', hcaptured'⟩ := hbc.settled (hab.kind.trans htop)
    exact ⟨hlocals'.trans hlocals, hcaptured'.trans hcaptured⟩

/-- What changes a function only. -/
theorem Scope.Appended.of_function {a b : Scope} (hkind : a.kind = .function)
    (hname : b.name = a.name) (hkind' : b.kind = a.kind) (hdeclared : b.declared = a.declared) :
    Appended a b := by
  refine ⟨hname, hkind', hdeclared ▸ List.prefix_refl _, fun htop => ?_⟩
  rw [htop] at hkind
  cases hkind

theorem OrderedMap.prefix_insert_unit (m : OrderedMap String Unit) (name : String) :
    m.toList <+: (m.insert name ()).toList := by
  unfold OrderedMap.toList
  cases h : m.position? name with
  | none =>
    rw [entries_insert_of_none h, Array.toList_push]
    exact List.prefix_append _ _
  | some i =>
    obtain ⟨u, hu⟩ := (m.wf name i).1 h
    obtain ⟨hi, hu⟩ := Array.getElem?_eq_some_iff.1 hu
    have hsame : (m.insert name ()).entries.toList = m.entries.toList := by
      rw [entries_insert_of_some h, Array.toList_setIfInBounds,
        show (name, ()) = m.entries.toList[i] from hu.symm, List.set_getElem_self]
    exact hsame ▸ List.prefix_refl _

theorem Scope.declare_appended (a : Scope) (name : String) : a.Appended (a.declare name).2 := by
  unfold Scope.declare
  split
  · exact ⟨rfl, rfl, OrderedMap.prefix_insert_unit _ name, fun _ => ⟨rfl, rfl⟩⟩
  · rename_i hkind
    split
    · exact .refl a
    · dsimp only
      split
      · exact .of_function hkind rfl rfl rfl
      · exact .refl a

/-- Resolving a name changes functions only. -/
theorem Scope.resolve_appended (name : String) (scopes : List Scope) :
    List.Forall₂ Scope.Appended scopes (Scope.resolve name scopes).2 := by
  have hsame : ∀ scopes : List Scope, List.Forall₂ Scope.Appended scopes scopes :=
    fun scopes => List.forall₂_same.2 fun s _ => .refl s
  induction scopes with
  | nil => exact .nil
  | cons s outer ih =>
    unfold Scope.resolve
    split
    · exact hsame _
    · rename_i hkind
      split
      · exact hsame _
      · split
        · exact hsame _
        · split
          · split
            · rename_i i outer' hresolve
              rw [hresolve] at ih
              exact .cons (.of_function hkind rfl rfl rfl) ih
            · rename_i i outer' hresolve
              rw [hresolve] at ih
              exact .cons (.of_function hkind rfl rfl rfl) ih
            · rename_i symbol outer' hslot hfree hresolve
              rw [hresolve] at ih
              exact .cons (.refl s) ih
          · exact hsame _

/-- Constants, names and declarations may have been added. -/
structure Appended (s s' : CompileState) : Prop where
  constants : s.pools.constants.toList <+: s'.pools.constants.toList
  names : s.pools.names.toList <+: s'.pools.names.toList
  scopes : List.Forall₂ Scope.Appended s.scopes s'.scopes

theorem Appended.of_scopes {s : CompileState} {scopes : List Scope} (nextId : Nat)
    (h : List.Forall₂ Scope.Appended s.scopes scopes) : Appended s ⟨s.pools, scopes, nextId⟩ :=
  ⟨List.prefix_refl _, List.prefix_refl _, h⟩

theorem Appended.of_pools {s : CompileState} {pools : Pools}
    (hconstants : s.pools.constants.toList <+: pools.constants.toList)
    (hnames : s.pools.names.toList <+: pools.names.toList) : Appended s { s with pools } :=
  ⟨hconstants, hnames, List.forall₂_same.2 fun a _ => .refl a⟩

theorem Appended.refl (s : CompileState) : Appended s s :=
  .of_pools (List.prefix_refl _) (List.prefix_refl _)

theorem Appended.trans {s s₁ s₂ : CompileState} (h₁ : Appended s s₁) (h₂ : Appended s₁ s₂) :
    Appended s s₂ :=
  ⟨h₁.constants.trans h₂.constants, h₁.names.trans h₂.names,
    Scope.forall₂_trans .trans h₁.scopes h₂.scopes⟩

/-! ## Parts of the compiler -/

/-- The state that is left, whether the part is accepted or refused. -/
def CompileM.left {α : Type} (x : CompileM α) (s : CompileState) : CompileState :=
  match x s with
  | .ok (_, s') => s'
  | .error (_, s') => s'

section
variable {α β : Type} {x : CompileM α} {k : α → CompileM β} {s s₁ : CompileState}

theorem left_bind_of_ok {a : α} (h : x s = .ok (a, s₁)) : left (x >>= k) s = left (k a) s₁ := by
  unfold left
  change (match x s >>= fun p => k p.1 p.2 with
    | .ok (_, s') => s'
    | .error (_, s') => s') = _
  rw [h]
  rfl

theorem left_bind_of_error {e : CompileError} (h : x s = .error (e, s₁)) :
    left (x >>= k) s = s₁ := by
  unfold left
  change (match x s >>= fun p => k p.1 p.2 with
    | .ok (_, s') => s'
    | .error (_, s') => s') = _
  rw [h]
  rfl

theorem left_of_ok {a : α} (h : x s = .ok (a, s₁)) : left x s = s₁ := by
  unfold left
  rw [h]

theorem left_of_error {e : CompileError} (h : x s = .error (e, s₁)) : left x s = s₁ := by
  unfold left
  rw [h]

end

/-- The part of the compiler only adds to the tables. -/
def Appends {α : Type} (x : CompileM α) : Prop := ∀ s, Appended s (x.left s)

namespace Appends

variable {α β : Type}

theorem pure (a : α) : Appends (pure a) := fun s => .refl s

theorem fail (fault : CompileFault) (span : Span) : Appends (fail fault span : CompileM α) :=
  fun s => .refl s

theorem bind {x : CompileM α} {k : α → CompileM β} (hx : Appends x) (hk : ∀ a, Appends (k a)) :
    Appends (x >>= k) := by
  intro s
  have hfirst := hx s
  cases hs : x s with
  | error refused =>
    rw [left_of_error hs] at hfirst
    rw [left_bind_of_error hs]
    exact hfirst
  | ok found =>
    rw [left_of_ok hs] at hfirst
    rw [left_bind_of_ok hs]
    exact hfirst.trans (hk found.1 found.2)

theorem ite {c : Prop} [Decidable c] {x y : CompileM α} (hx : Appends x) (hy : Appends y) :
    Appends (if c then x else y) := by
  split
  · exact hx
  · exact hy

theorem get : Appends (get : CompileM CompileState) := fun s => .refl s

theorem modify {f : CompileState → CompileState} (hf : ∀ s, Appended s (f s)) :
    Appends (modify f : CompileM Unit) := hf

theorem emit (op : Opcode) (operands : List Nat) (span : Span) :
    Appends (emit op operands span) := by
  unfold CompileM.emit
  split
  · exact fail _ _
  · exact pure _

theorem emitJump (op : Opcode) (distance : Nat) (span : Span) :
    Appends (emitJump op distance span) := ite (pure _) (fail _ _)

theorem checkCount (count : Nat) (what : String) (limit : Nat) (span : Span) :
    Appends (checkCount count what limit span) := ite (pure _) (fail _ _)

theorem addConstant (v : Value) (span : Span) : Appends (addConstant v span) := by
  refine get.bind fun s => ?_
  split
  · exact pure _
  · refine get.bind fun s => ite (bind (modify fun s => ?_) fun u => pure _) (fail _ _)
    refine .of_pools ?_ (List.prefix_refl _)
    change s.pools.constants.toList <+: (s.pools.constants.push v).toList
    rw [Array.toList_push]
    exact List.prefix_append _ _

theorem addName (name : String) (span : Span) : Appends (addName name span) := by
  refine get.bind fun s => ?_
  split
  · exact pure _
  · refine get.bind fun s => ite (bind (modify fun s => ?_) fun u => pure _) (fail _ _)
    exact .of_pools (List.prefix_refl _) (OrderedMap.prefix_insert_unit _ name)

theorem mapM {k : α → CompileM β} (hk : ∀ a, Appends (k a)) (items : List α) :
    Appends (items.mapM k) := by
  induction items with
  | nil => exact pure _
  | cons a rest ih =>
    rw [List.mapM_cons]
    exact (hk a).bind fun b => ih.bind fun bs => pure _

/-! ## Variables -/

theorem resolve (name : String) : Appends (resolve name) :=
  fun s => .of_scopes _ (Scope.resolve_appended name s.scopes)

theorem inFunction : Appends inFunction := get.bind fun _ => pure _

theorem isTopLevelName (name : String) : Appends (isTopLevelName name) := get.bind fun _ => pure _

theorem declareHere (name : String) (span : Span) : Appends (declareHere name span) := by
  rintro ⟨pools, scopes, nextId⟩
  unfold left CompileM.declareHere
  cases scopes with
  | nil => exact .refl _
  | cons scope outer =>
    have happended := Scope.declare_appended scope name
    have hscopes : List.Forall₂ Scope.Appended (scope :: outer) ((scope.declare name).2 :: outer) :=
      .cons happended (List.forall₂_same.2 fun a _ => .refl a)
    rcases hdeclare : scope.declare name with ⟨symbol, scope'⟩
    rw [hdeclare] at hscopes
    dsimp only
    rw [hdeclare]
    cases symbol with
    | none => exact .of_scopes nextId hscopes
    | some symbol => exact .of_scopes nextId hscopes

theorem declare (builtins : Std.HashSet String) (name : String) (span : Span) :
    Appends (declare builtins name span) :=
  inFunction.bind fun _ => ite (fail _ _) (declareHere name span)

theorem assignmentTarget (builtins : Std.HashSet String) (name : String) (span : Span) :
    Appends (assignmentTarget builtins name span) := by
  refine inFunction.bind fun b => ite (declare builtins name span) ?_
  refine (resolve name).bind fun symbol => ?_
  split
  · exact (isTopLevelName _).bind fun _ => ite (pure _) (ite (fail _ _) (fail _ _))
  · exact pure _

theorem loadSymbol (symbol : Symbol) (span : Span) : Appends (loadSymbol symbol span) := by
  cases symbol with
  | slot i | free i => exact emit _ _ _
  | global name | name name => exact (addName name span).bind fun i => emit _ _ _

theorem storeSymbol (symbol : Symbol) (span : Span) : Appends (storeSymbol symbol span) := by
  cases symbol with
  | slot i | free i => exact emit _ _ _
  | global name | name name => exact (addName name span).bind fun i => emit _ _ _

/-! ## Functions -/

theorem parameterScope (name : String) (params : List String) (span : Span) :
    Appends (parameterScope name params span) := by
  unfold Ember.parameterScope
  generalize Scope.function name = scope
  induction params generalizing scope with
  | nil => exact pure _
  | cons param rest ih =>
    rw [List.foldlM_cons]
    refine bind ?_ fun scope' => ih scope'
    split
    · exact pure _
    · exact fail _ _

theorem makeCell (f : FreeVariable) (span : Span) : Appends (makeCell f span) := by
  unfold Ember.makeCell
  split
  · exact emit _ _ _
  · exact emit _ _ _

theorem loadFunction (g : Routine Value) (span : Span) : Appends (loadFunction g span) := by
  refine (addConstant _ span).bind fun i => ite ?_ ?_
  · exact (emit _ _ _).bind fun item => pure _
  · refine bind ?_ fun cells => (emit _ _ _).bind fun item => pure _
    rw [Array.mapM_eq_mapM_toList, map_eq_pure_bind]
    exact bind (mapM (fun f => makeCell f span) _) fun cells => pure _

/-- The tables of a function are its own; the code around it goes on with those that it had. -/
theorem compileFunction (name : String) (params : List String) (span : Span)
    {body : CompileM Fragment} (hbody : Appends body) :
    Appends (compileFunction name params span body) := by
  refine (checkCount _ _ _ span).bind fun u => (parameterScope name params span).bind fun scope =>
    ?_
  intro s
  have hinner := hbody ⟨.empty, scope :: s.scopes, s.nextId⟩
  obtain ⟨scope', around, -, haround, hscopes⟩ := List.forall₂_cons_left_iff.1 hinner.scopes
  have henter : enterFunction scope s = .ok (s.pools, ⟨.empty, scope :: s.scopes, s.nextId⟩) := rfl
  rw [left_bind_of_ok henter]
  cases hresult : body ⟨.empty, scope :: s.scopes, s.nextId⟩ with
  | error refused =>
    rw [left_of_error hresult] at hscopes
    have hleft : compileBody s.pools body ⟨.empty, scope :: s.scopes, s.nextId⟩ =
        .error (refused.1, ⟨s.pools, refused.2.scopes.drop 1, refused.2.nextId⟩) := by
      unfold compileBody
      rw [hresult]
    rw [left_bind_of_error hleft, hscopes]
    exact .of_scopes _ haround
  | ok found =>
    rw [left_of_ok hresult] at hscopes
    obtain ⟨code, pools, scopes, nextId⟩ := found
    obtain rfl : scopes = scope' :: around := hscopes
    rw [left_bind_of_ok (compileBody_eq_ok.2 hresult)]
    exact (Appended.of_scopes (nextId + 1) haround).trans (loadFunction _ span _)

end Appends

/-! ## Programs -/

section
variable {builtins : Std.HashSet String}

theorem appends_literal (v : Value) (span : Span) : Appends (loadConstant v span) :=
  .bind (.addConstant v span) fun _ => .bind (.emit _ _ _) fun _ => .pure _

theorem appends_joinConnective (op : Connective) (left right : Fragment) (span : Span) :
    Appends (joinConnective op left right span) := by
  unfold joinConnective
  cases op <;>
    exact .bind (.emitJump _ _ _) fun _ => .bind (.emitJump _ _ _) fun _ =>
      .bind (.emitJump _ _ _) fun _ => .pure _

mutual

theorem compileExpr_appends : ∀ e : Expr, Appends (compileExpr builtins e)
  | .int .. | .float .. | .str .. => appends_literal _ _
  | .bool _ true | .bool _ false | .nil _ => .pure _
  | .ident _ name => .bind (.resolve name) fun _ => .bind (.loadSymbol _ _) fun _ => .pure _
  | .list _ items | .set _ items =>
    .bind (.checkCount _ _ _ _) fun _ => .bind (compileExprs_appends items _) fun _ =>
      .bind (.emit _ _ _) fun _ => .pure _
  | .map _ entries =>
    .bind (.checkCount _ _ _ _) fun _ => .bind (compileEntries_appends entries _) fun _ =>
      .bind (.emit _ _ _) fun _ => .pure _
  | .unary _ _ operand => .bind (compileExpr_appends operand) fun _ => .pure _
  | .binary _ _ left right =>
    .bind (compileExpr_appends left) fun _ => .bind (compileExpr_appends right) fun _ => .pure _
  | .logical _ _ left right =>
    .bind (compileExpr_appends left) fun _ => .bind (compileExpr_appends right) fun _ =>
      appends_joinConnective _ _ _ _
  | .call _ callee args =>
    .bind (.checkCount _ _ _ _) fun _ => .bind (compileExpr_appends callee) fun _ =>
      .bind (compileExprs_appends args _) fun _ => .bind (.emit _ _ _) fun _ => .pure _
  | .index _ object key =>
    .bind (compileExpr_appends object) fun _ => .bind (compileExpr_appends key) fun _ => .pure _
  | .attr _ object name =>
    .bind (compileExpr_appends object) fun _ => .bind (.addName name _) fun _ =>
      .bind (.emit _ _ _) fun _ => .pure _
  | .func _ params body => .compileFunction _ params _ (compileStmts_appends false body _)

theorem compileExprs_appends :
    ∀ (items : List Expr) (code : Fragment), Appends (compileExprs builtins items code)
  | [], _ => .pure _
  | e :: rest, _ => .bind (compileExpr_appends e) fun _ => compileExprs_appends rest _

theorem compileEntries_appends :
    ∀ (entries : List (Expr × Expr)) (code : Fragment),
      Appends (compileEntries builtins entries code)
  | [], _ => .pure _
  | (k, v) :: rest, _ =>
    .bind (compileExpr_appends k) fun _ => .bind (compileExpr_appends v) fun _ =>
      compileEntries_appends rest _

theorem compileStmt_appends (inLoop : Bool) :
    ∀ st : Stmt, Appends (compileStmt builtins inLoop st)
  | .var _ name value => by
    have hvalue : Appends (compileExpr builtins value) := compileExpr_appends value
    cases value with
    | func funcSpan params body =>
      exact .bind (.declare _ _ _) fun _ =>
        .bind (.compileFunction _ params _ (compileStmts_appends false body _)) fun _ =>
          .bind (.storeSymbol _ _) fun _ => .pure _
    | _ =>
      exact .bind hvalue fun _ => .bind (.declare _ _ _) fun _ =>
        .bind (.storeSymbol _ _) fun _ => .pure _
  | .assign _ (.ident _ name) value => by
    have hvalue : Appends (compileExpr builtins value) := compileExpr_appends value
    cases value with
    | func funcSpan params body =>
      exact .bind (.assignmentTarget _ _ _) fun _ =>
        .bind (.compileFunction _ params _ (compileStmts_appends false body _)) fun _ =>
          .bind (.storeSymbol _ _) fun _ => .pure _
    | _ =>
      exact .bind (.assignmentTarget _ _ _) fun _ => .bind hvalue fun _ =>
        .bind (.storeSymbol _ _) fun _ => .pure _
  | .assign _ (.index _ object key) value =>
    .bind (compileExpr_appends value) fun _ => .bind (compileExpr_appends object) fun _ =>
      .bind (compileExpr_appends key) fun _ => .pure _
  | .assign _ (.attr _ object name) value =>
    .bind (compileExpr_appends value) fun _ => .bind (compileExpr_appends object) fun _ =>
      .bind (.addName name _) fun _ => .bind (.emit _ _ _) fun _ => .pure _
  | .assign _ (.int ..) _ | .assign _ (.float ..) _ | .assign _ (.str ..) _
  | .assign _ (.bool ..) _ | .assign _ (.nil ..) _ | .assign _ (.list ..) _
  | .assign _ (.map ..) _ | .assign _ (.set ..) _ | .assign _ (.unary ..) _
  | .assign _ (.binary ..) _ | .assign _ (.logical ..) _ | .assign _ (.call ..) _
  | .assign _ (.func ..) _ => .fail _ _
  | .funcDef _ name params body =>
    .bind (.declare _ _ _) fun _ =>
      .bind (.compileFunction _ params _ (compileStmts_appends false body _)) fun _ =>
        .bind (.storeSymbol _ _) fun _ => .pure _
  | .return _ none => .bind .inFunction fun _ => .ite (.pure _) (.fail _ _)
  | .return _ (some value) =>
    .bind .inFunction fun _ =>
      .ite (.bind (compileExpr_appends value) fun _ => .pure _) (.fail _ _)
  | .if _ cond thenBody none =>
    .bind (compileExpr_appends cond) fun _ =>
      .bind (compileStmts_appends inLoop thenBody _) fun _ =>
        .bind (.emitJump _ _ _) fun _ => .pure _
  | .if _ cond thenBody (some elseBody) =>
    .bind (compileExpr_appends cond) fun _ =>
      .bind (compileStmts_appends inLoop thenBody _) fun _ =>
        .bind (.emitJump _ _ _) fun _ => .bind (compileStmts_appends inLoop elseBody _) fun _ =>
          .bind (.emitJump _ _ _) fun _ => .pure _
  | .while _ cond body =>
    .bind (compileStmts_appends true body _) fun _ => .bind (.emitJump _ _ _) fun _ =>
      .bind (compileExpr_appends cond) fun _ => .bind (.emit _ _ _) fun _ => .pure _
  | .break _ | .continue _ => .ite (.pure _) (.fail _ _)
  | .print _ value | .expr _ value => .bind (compileExpr_appends value) fun _ => .pure _
  | .delete _ object key =>
    .bind (compileExpr_appends object) fun _ => .bind (compileExpr_appends key) fun _ => .pure _

theorem compileStmts_appends (inLoop : Bool) :
    ∀ (body : List Stmt) (code : Fragment), Appends (compileStmts builtins inLoop body code)
  | [], _ => .pure _
  | st :: rest, _ =>
    .bind (compileStmt_appends inLoop st) fun _ => compileStmts_appends inLoop rest _

end

theorem compileChunk_appends (statements : List Stmt) (code : Fragment) :
    Appends (compileChunk builtins statements code) := by
  fun_induction compileChunk builtins statements code with
  | case1 code => exact .pure _
  | case2 span value code => exact .bind (compileExpr_appends value) fun _ => .pure _
  | case3 st rest code hne ih => exact .bind (compileStmt_appends false st) fun more => ih more

end

/-! ## Cutting back -/

theorem Pools.ext {p q : Pools} (hconstants : p.constants = q.constants)
    (hnames : p.names = q.names) : p = q := by
  obtain ⟨constants, known, names, indexed⟩ := p
  obtain ⟨constants', known', names', indexed'⟩ := q
  obtain rfl : constants = constants' := hconstants
  obtain rfl : names = names' := hnames
  obtain rfl : known = known' := indexed.trans indexed'.symm
  rfl

theorem take_of_isPrefix {α : Type} {a b : Array α} (h : a.toList <+: b.toList) :
    b.take a.size = a := by
  apply Array.toList_inj.1
  rw [Array.take_eq_extract, Array.toList_extract, List.extract_eq_take_drop, Nat.sub_zero,
    List.drop_zero, ← Array.length_toList]
  exact (List.prefix_iff_eq_take.1 h).symm

theorem OrderedMap.take_of_isPrefix {m m' : OrderedMap String Unit} (h : m.toList <+: m'.toList) :
    m'.take m.size = m :=
  OrderedMap.ext (Ember.take_of_isPrefix h)

theorem Scope.Appended.truncateDeclared {a b : Scope} (h : a.Appended b)
    (htop : a.kind = .topLevel) : b.truncateDeclared a.declared.size = a := by
  obtain ⟨hlocals, hcaptured⟩ := h.settled htop
  obtain ⟨hname, hkind, hdeclared, -⟩ := h
  cases a
  cases b
  dsimp only at hname hkind hlocals hcaptured
  subst hname hkind hlocals hcaptured
  unfold Scope.truncateDeclared
  rw [OrderedMap.take_of_isPrefix hdeclared]

namespace Compiler

variable {c : Compiler} {p : Program}

/-- A program that is refused leaves the compiler as it was. -/
theorem submit_refused (htop : c.scope.kind = .topLevel) {e : CompileError}
    (h : (c.submit p).1 = .error e) : (c.submit p).2 = c := by
  have happended : Appended c.state (left (compileChunk c.builtins p.statements #[]) c.state) :=
    compileChunk_appends p.statements #[] c.state
  unfold submit at h ⊢
  cases hchunk : compileChunk c.builtins p.statements #[] c.state with
  | ok found =>
    rw [hchunk] at h
    cases h
  | error refused =>
    rw [left_of_error hchunk] at happended
    obtain ⟨e, pools, scopes, nextId⟩ := refused
    obtain ⟨scope, rest, hscope, hrest, hscopes⟩ := List.forall₂_cons_left_iff.1 happended.scopes
    obtain rfl : rest = [] := List.forall₂_nil_left_iff.1 hrest
    obtain rfl : scopes = [scope] := hscopes
    have hpools : pools.truncate c.pools.constants.size c.pools.names.size = c.pools :=
      Pools.ext (take_of_isPrefix happended.constants) (OrderedMap.take_of_isPrefix happended.names)
    have hdeclared := hscope.truncateDeclared htop
    show Compiler.mk c.name c.builtins c.code
      (pools.truncate c.pools.constants.size c.pools.names.size)
      (scope.truncateDeclared c.scope.declared.size) c.nextId = c
    rw [hpools, hdeclared]

theorem kind_submit (htop : c.scope.kind = .topLevel) : (c.submit p).2.scope.kind = .topLevel := by
  have happended : Appended c.state (left (compileChunk c.builtins p.statements #[]) c.state) :=
    compileChunk_appends p.statements #[] c.state
  cases hresult : (c.submit p).1 with
  | error e => rw [submit_refused htop hresult, htop]
  | ok range =>
    unfold submit at hresult ⊢
    cases hchunk : compileChunk c.builtins p.statements #[] c.state with
    | error refused =>
      rw [hchunk] at hresult
      cases hresult
    | ok found =>
      rw [left_of_ok hchunk] at happended
      obtain ⟨scope, rest, hscope, -, hscopes⟩ := List.forall₂_cons_left_iff.1 happended.scopes
      show (found.2.scopes.headD c.scope).kind = .topLevel
      rw [hscopes]
      exact hscope.kind.trans htop

/-- What is compiled, in terms of what is not refused. -/
theorem submit_eq (htop : c.scope.kind = .topLevel) (p : Program) :
    c.submit p = match c.compile p with
      | .error e => (.error e, c)
      | .ok (range, c') => (.ok range, c') := by
  unfold compile
  rcases hsubmit : c.submit p with ⟨result, c'⟩
  cases result with
  | error e =>
    have hrefused : (c.submit p).2 = c := submit_refused htop (congrArg Prod.fst hsubmit)
    rw [hsubmit] at hrefused
    rw [show c' = c from hrefused]
  | ok range => rfl

end Compiler

end Ember
