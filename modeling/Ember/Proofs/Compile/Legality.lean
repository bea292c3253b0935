import Ember.Proofs.Ast.Readings
import Ember.Proofs.Compile.Offences

/-! Which programs the compiler refuses: those with an offence, if everything in them fits the
operands of instructions. Each part of the compiler stops at the first offence of what it compiles;
where it succeeds there is none, and its scopes hold the names that have been declared. -/
namespace Ember
set_option autoImplicit false

open CompileM

/-! ## Reports -/

/-- The part of the compiler stops at the first of the offences or because something does not fit;
where it succeeds there are no offences, and the names have been declared. -/
structure Reports {α : Type} (x : CompileM α) (known : Declared) (names : List String)
    (faults : List CompileFault) : Prop where
  done : ∀ ⦃s s' : CompileState⦄ ⦃a : α⦄, known.HeldBy s.scopes → x s = .ok (a, s') →
    faults = [] ∧ (known.declare names).HeldBy s'.scopes
  refused : ∀ ⦃s s' : CompileState⦄ ⦃e : CompileError⦄, known.HeldBy s.scopes →
    x s = .error (e, s') → e.fault.isLimit = true ∨ faults.head? = some e.fault

/-- The part of the compiler declares nothing, and stops only because something does not fit. -/
def Neutral {α : Type} (x : CompileM α) : Prop := ∀ known, Reports x known [] []

section
variable {α β : Type} {x : CompileM α} {k : α → CompileM β} {known : Declared}
  {names more : List String} {faults faults' : List CompileFault}

namespace Reports

theorem fail (fault : CompileFault) (span : Span) :
    Reports (fail fault span : CompileM α) known names (fault :: faults) := by
  refine ⟨fun s s' a _ h => absurd h fail_ne_ok, fun s s' e _ h => ?_⟩
  cases h
  exact .inr rfl

theorem of_limit {fault : CompileFault} (hlimit : fault.isLimit = true) (span : Span) :
    Reports (CompileM.fail fault span : CompileM α) known names faults := by
  refine ⟨fun s s' a _ h => absurd h fail_ne_ok, fun s s' e _ h => ?_⟩
  cases h
  exact .inl hlimit

theorem bind (hx : Reports x known names faults)
    (hk : ∀ a, Reports (k a) (known.declare names) more faults') :
    Reports (x >>= k) known (names ++ more) (faults ++ faults') := by
  refine ⟨fun s s' b hs h => ?_, fun s s' e hs h => ?_⟩
  · obtain ⟨a, s₁, ha, hb⟩ := bind_eq_ok.1 h
    obtain ⟨rfl, hs₁⟩ := hx.done hs ha
    obtain ⟨rfl, hs'⟩ := (hk a).done hs₁ hb
    exact ⟨rfl, by rw [Declared.declare_append]; exact hs'⟩
  · change (x s >>= fun p => k p.1 p.2) = .error (e, s') at h
    cases hfound : x s with
    | error failed =>
      rw [hfound] at h
      cases h
      exact (hx.refused hs hfound).imp id fun hfirst => by rw [List.head?_append, hfirst]; rfl
    | ok found =>
      rw [hfound] at h
      obtain ⟨rfl, hs₁⟩ := hx.done hs hfound
      exact (hk _).refused hs₁ h

/-- What comes first declares nothing. -/
theorem andThen (hx : Reports x known [] faults)
    (hk : ∀ a, Reports (k a) known more faults') :
    Reports (x >>= k) known more (faults ++ faults') := by
  have hwhole : Reports (x >>= k) known ([] ++ more) (faults ++ faults') := hx.bind fun a => by
    rw [Declared.declare_nil]
    exact hk a
  exact hwhole

/-- What comes last declares nothing. -/
theorem andLast (hx : Reports x known names faults)
    (hk : ∀ a, Reports (k a) (known.declare names) [] faults') :
    Reports (x >>= k) known names (faults ++ faults') := by
  have hwhole := hx.bind hk
  rwa [List.append_nil] at hwhole

theorem andNeutral (hx : Reports x known names faults) (hk : ∀ a, Neutral (k a)) :
    Reports (x >>= k) known names faults := by
  have hwhole := hx.andLast fun a => hk a _
  rwa [List.append_nil] at hwhole

end Reports

namespace Neutral

theorem pure (a : α) : Neutral (pure a) := by
  refine fun known => ⟨fun s s' b hs h => ?_, fun s s' e _ h => by cases h⟩
  obtain ⟨-, rfl⟩ := pure_eq_ok.1 h
  exact ⟨rfl, by rwa [Declared.declare_nil]⟩

theorem fail {fault : CompileFault} (hlimit : fault.isLimit = true) (span : Span) :
    Neutral (fail fault span : CompileM α) := fun _ => .of_limit hlimit span

theorem before (hx : Neutral x) (hk : ∀ a, Reports (k a) known names faults) :
    Reports (x >>= k) known names faults := (hx known).andThen hk

theorem bind (hx : Neutral x) (hk : ∀ a, Neutral (k a)) : Neutral (x >>= k) :=
  fun known => hx.before fun a => hk a known

theorem ite {c : Prop} [Decidable c] {x y : CompileM α} (hx : Neutral x) (hy : Neutral y) :
    Neutral (if c then x else y) := by
  split
  · exact hx
  · exact hy

/-- What leaves the scopes as they are and never fails. -/
theorem of_scopes (hx : ∀ s, ∃ a s', x s = .ok (a, s') ∧ s'.scopes = s.scopes) : Neutral x := by
  refine fun known => ⟨fun s s' a hs h => ?_, fun s s' e _ h => ?_⟩
  · obtain ⟨b, t, ht, hscopes⟩ := hx s
    rw [ht] at h
    cases h
    rw [Declared.declare_nil, hscopes]
    exact ⟨rfl, hs⟩
  · obtain ⟨b, t, ht, -⟩ := hx s
    rw [ht] at h
    cases h

theorem get : Neutral (get : CompileM CompileState) := of_scopes fun s => ⟨s, s, rfl, rfl⟩

theorem modify {f : CompileState → CompileState} (hf : ∀ s, (f s).scopes = s.scopes) :
    Neutral (modify f : CompileM Unit) := of_scopes fun s => ⟨(), f s, rfl, hf s⟩

theorem emit (op : Opcode) (operands : List Nat) (span : Span) :
    Neutral (emit op operands span) := by
  unfold CompileM.emit
  split
  · exact fail rfl span
  · exact pure _

theorem emitJump (op : Opcode) (distance : Nat) (span : Span) :
    Neutral (emitJump op distance span) := ite (pure _) (fail rfl span)

theorem checkCount (count : Nat) (what : String) (limit : Nat) (span : Span) :
    Neutral (checkCount count what limit span) := ite (pure _) (fail rfl span)

theorem addConstant (v : Value) (span : Span) : Neutral (addConstant v span) := by
  refine get.bind fun s => ?_
  split
  · exact pure _
  · exact get.bind fun s => ite (bind (modify fun s => rfl) fun u => pure _) (fail rfl span)

theorem addName (name : String) (span : Span) : Neutral (addName name span) := by
  refine get.bind fun s => ?_
  split
  · exact pure _
  · exact get.bind fun s => ite (bind (modify fun s => rfl) fun u => pure _) (fail rfl span)

theorem mapM {k : α → CompileM β} (hk : ∀ a, Neutral (k a)) (items : List α) :
    Neutral (items.mapM k) := by
  induction items with
  | nil => exact pure _
  | cons a rest ih =>
    rw [List.mapM_cons]
    exact (hk a).bind fun b => ih.bind fun bs => pure _

theorem loadConstant (v : Value) (span : Span) : Neutral (loadConstant v span) :=
  (addConstant v span).bind fun _ => (emit _ _ _).bind fun _ => pure _

theorem loadSymbol (symbol : Symbol) (span : Span) : Neutral (loadSymbol symbol span) := by
  cases symbol with
  | slot i | free i => exact emit _ _ _
  | global name | name name => exact (addName name span).bind fun i => emit _ _ _

theorem storeSymbol (symbol : Symbol) (span : Span) : Neutral (storeSymbol symbol span) := by
  cases symbol with
  | slot i | free i => exact emit _ _ _
  | global name | name name => exact (addName name span).bind fun i => emit _ _ _

theorem makeCell (f : FreeVariable) (span : Span) : Neutral (makeCell f span) := by
  unfold Ember.makeCell
  split
  · exact emit _ _ _
  · exact emit _ _ _

theorem loadFunction (g : Routine Value) (span : Span) : Neutral (loadFunction g span) := by
  refine (addConstant _ span).bind fun i => ite ?_ ?_
  · exact (emit _ _ _).bind fun item => pure _
  · refine bind ?_ fun cells => (emit _ _ _).bind fun item => pure _
    rw [Array.mapM_eq_mapM_toList, map_eq_pure_bind]
    exact bind (mapM (fun f => makeCell f span) _) fun cells => pure _

theorem joinConnective (op : Connective) (left right : Fragment) (span : Span) :
    Neutral (joinConnective op left right span) := by
  unfold Ember.joinConnective
  cases op <;>
    exact (emitJump _ _ _).bind fun _ => (emitJump _ _ _).bind fun _ =>
      (emitJump _ _ _).bind fun _ => pure _

theorem resolve (name : String) : Neutral (resolve name) := by
  refine fun known => ⟨fun s s' a hs h => ?_, fun s s' e _ h => by cases h⟩
  cases h
  rw [Declared.declare_nil]
  exact ⟨rfl, (hs.resolve name).1⟩

end Neutral

end

/-! ## Names and functions -/

section
variable {builtins : Std.HashSet String} {known : Declared} {α : Type} {names : List String}
  {faults : List CompileFault}

namespace Reports

/-- It is enough to look at the states that hold the names. -/
theorem of_state {x : CompileM α}
    (h : ∀ s, known.HeldBy s.scopes → ∃ y : CompileM α, x s = y s ∧ Reports y known names faults) :
    Reports x known names faults := by
  refine ⟨fun s s' a hs hx => ?_, fun s s' e hs hx => ?_⟩
  · obtain ⟨y, hy, hreports⟩ := h s hs
    exact hreports.done hs (hy ▸ hx)
  · obtain ⟨y, hy, hreports⟩ := h s hs
    exact hreports.refused hs (hy ▸ hx)

theorem inFunction {k : Bool → CompileM α}
    (hk : Reports (k known.inFunction) known names faults) :
    Reports (inFunction >>= k) known names faults := by
  refine of_state fun s hs => ⟨k known.inFunction, ?_, hk⟩
  rw [← hs.inFunction_eq]
  rfl

theorem isTopLevelName {n : String} {k : Bool → CompileM α}
    (hk : Reports (k (decide (n ∈ known.session))) known names faults) :
    Reports (isTopLevelName n >>= k) known names faults := by
  refine of_state fun s hs => ⟨k (decide (n ∈ known.session)), ?_, hk⟩
  rw [Bool.decide_congr hs.isTopLevelName_iff.symm, Bool.decide_eq_true]
  rfl

theorem resolve {n : String} {k : Symbol → CompileM α}
    (hk : ∀ symbol, known.Finds n symbol → Reports (k symbol) known names faults) :
    Reports (resolve n >>= k) known names faults := by
  refine ⟨fun s s' a hs h => ?_, fun s s' e hs h => ?_⟩
  · obtain ⟨hscopes, hfinds⟩ := hs.resolve n
    exact (hk _ hfinds).done hscopes h
  · obtain ⟨hscopes, hfinds⟩ := hs.resolve n
    exact (hk _ hfinds).refused hscopes h

theorem declareHere (n : String) (span : Span) : Reports (declareHere n span) known [n] [] := by
  refine ⟨fun s s' symbol hs h => ?_, fun s s' e hs h => ?_⟩
  · obtain ⟨pools, _ | ⟨scope, outer⟩, nextId⟩ := s
    · cases h
    · unfold CompileM.declareHere at h
      dsimp only at h
      split at h
      · rename_i symbol' scope' hdeclare
        cases h
        exact ⟨rfl, hs.declare hdeclare⟩
      · cases h
  · obtain ⟨pools, _ | ⟨scope, outer⟩, nextId⟩ := s
    · cases hs
    · unfold CompileM.declareHere at h
      dsimp only at h
      split at h
      · cases h
      · cases h
        exact .inl rfl

theorem declare (n : String) (span : Span) :
    Reports (declare builtins n span) known [n] (known.declaring builtins.contains n) := by
  refine inFunction ?_
  unfold Declared.declaring
  by_cases hbuiltin : known.inFunction = false ∧ builtins.contains n = true
  · rw [if_pos hbuiltin, if_pos (by rw [hbuiltin.1, hbuiltin.2]; rfl)]
    exact fail _ span
  · rw [if_neg hbuiltin, if_neg (by simpa using hbuiltin)]
    exact declareHere n span

/-- In a function a name is looked for, elsewhere it is declared. -/
theorem assignmentTarget (n : String) (span : Span) :
    Reports (assignmentTarget builtins n span) known (if known.inFunction then [] else [n])
      (known.assigning builtins.contains n) := by
  refine inFunction ?_
  unfold Declared.assigning
  cases hinside : known.inFunction with
  | false => exact declare n span
  | true =>
    rw [if_neg Bool.noConfusion, if_pos rfl]
    refine resolve fun symbol hfinds => ?_
    cases symbol with
    | slot i | free i =>
      have hbound : known.Binds n ∨ n ∈ known.session := .inl hfinds
      rw [if_pos hbound]
      exact Neutral.pure _ known
    | name m =>
      rw [show known.inFunction = false from hfinds] at hinside
      cases hinside
    | global m =>
      obtain ⟨rfl, hnone⟩ := hfinds
      refine isTopLevelName ?_
      by_cases hsession : m ∈ known.session
      · have hbound : known.Binds m ∨ m ∈ known.session := .inr hsession
        rw [if_pos hbound, decide_eq_true hsession]
        exact Neutral.pure _ known
      · have hunbound : ¬ (known.Binds m ∨ m ∈ known.session) := not_or.2 ⟨hnone, hsession⟩
        rw [if_neg hunbound, decide_eq_false hsession]
        cases builtins.contains m with
        | false => exact fail _ span
        | true => exact fail _ span

theorem returning {x : CompileM α} (hx : Reports x known [] faults) (span : Span) :
    Reports (do if ← CompileM.inFunction then x else CompileM.fail .returnOutsideFunction span)
      known [] (known.returning ++ faults) := by
  refine inFunction ?_
  unfold Declared.returning
  cases known.inFunction with
  | true => exact hx
  | false => exact fail _ span

theorem leaving {inLoop : Bool} {keyword : Keyword} (way : LoopExit) (span : Span) :
    Reports (if inLoop then pure #[Item.hole way] else CompileM.fail (.outsideLoop keyword) span)
      known [] (leaving inLoop keyword) := by
  cases inLoop with
  | false => exact fail _ span
  | true => exact Neutral.pure _ known

/-- The body of a function is compiled in a scope of its own. -/
theorem within {body : CompileM Fragment} {inner : List String} {params : List String}
    (hbody : Reports body (known.enter params) inner faults) (name : String) {scope : Scope}
    (hscope : scope =
      params.foldl (fun scope param => (scope.widen param).2) (Scope.function name)) :
    Reports (do
      let outer ← enterFunction scope
      let code ← compileBody outer body
      leaveFunction outer name params (code.push (.op ⟨.returnValue, [0]⟩))) known [] faults := by
  subst hscope
  refine ⟨fun s s' a hs h => ?_, fun s s' e hs h => ?_⟩
  · obtain ⟨outer, s₁, hentered, h₁⟩ := bind_eq_ok.1 h
    cases hentered
    obtain ⟨code, s₂, hcode, h₂⟩ := bind_eq_ok.1 h₁
    cases h₂
    obtain ⟨hnone, hinner⟩ := hbody.done (hs.enter name params) (compileBody_eq_ok.1 hcode)
    rw [Declared.declare_nil]
    exact ⟨hnone, hinner.leave⟩
  · change (compileBody s.pools body _ >>= fun p =>
      leaveFunction s.pools name params (p.1.push (.op ⟨.returnValue, [0]⟩)) p.2) =
        .error (e, s') at h
    unfold compileBody at h
    split at h
    · cases h
    · rename_i failed hfailed
      cases h
      exact hbody.refused (hs.enter name params) hfailed

/-- A function has the offences of its body. -/
theorem compileFunction {body : CompileM Fragment} {inner : List String} {params : List String}
    (hbody : Reports body (known.enter params) inner faults) (name : String) (span : Span) :
    Reports (compileFunction name params span body) known [] faults := by
  unfold Ember.compileFunction
  by_cases hparams : params.length ≤ maxArguments
  · obtain ⟨scope, hscope, -, heq⟩ := parameterScope_eq hparams name span
    have hwhole := (within hbody name heq).andNeutral fun g => Neutral.loadFunction g span
    refine (Neutral.checkCount _ _ _ _).before fun _ => ?_
    rw [hscope, pure_bind]
    simpa only [bind_assoc] using hwhole
  · refine of_state fun s _ => ⟨CompileM.fail (.tooMany "parameters" maxArguments) span, ?_,
      of_limit rfl span⟩
    rw [checkCount, if_neg hparams]
    rfl

end Reports

end

/-! ## Programs -/

section
variable {builtins : Std.HashSet String}

mutual

theorem compileExpr_reports (known : Declared) : ∀ e : Expr,
    Reports (compileExpr builtins e) known [] (e.offences builtins.contains known)
  | .int .. | .float .. | .str .. => Neutral.loadConstant _ _ known
  | .bool _ true | .bool _ false | .nil _ => Neutral.pure _ known
  | .ident _ name =>
    (Neutral.resolve name).before fun _ => (Neutral.loadSymbol _ _).before fun _ =>
      Neutral.pure _ known
  | .list _ items | .set _ items =>
    (Neutral.checkCount _ _ _ _).before fun _ =>
      (compileExprs_reports known items _).andNeutral fun _ =>
        (Neutral.emit _ _ _).bind fun _ => .pure _
  | .map _ entries =>
    (Neutral.checkCount _ _ _ _).before fun _ =>
      (compileEntries_reports known entries _).andNeutral fun _ =>
        (Neutral.emit _ _ _).bind fun _ => .pure _
  | .unary _ _ operand => (compileExpr_reports known operand).andNeutral fun _ => .pure _
  | .binary _ _ left right =>
    (compileExpr_reports known left).andThen fun _ =>
      (compileExpr_reports known right).andNeutral fun _ => .pure _
  | .logical _ _ left right =>
    (compileExpr_reports known left).andThen fun _ =>
      (compileExpr_reports known right).andNeutral fun _ => .joinConnective _ _ _ _
  | .call _ callee args =>
    (Neutral.checkCount _ _ _ _).before fun _ =>
      (compileExpr_reports known callee).andThen fun _ =>
        (compileExprs_reports known args _).andNeutral fun _ =>
          (Neutral.emit _ _ _).bind fun _ => .pure _
  | .index _ object key =>
    (compileExpr_reports known object).andThen fun _ =>
      (compileExpr_reports known key).andNeutral fun _ => .pure _
  | .attr _ object name =>
    (compileExpr_reports known object).andNeutral fun _ => (Neutral.addName name _).bind fun _ =>
      (Neutral.emit _ _ _).bind fun _ => .pure _
  | .func _ params body =>
    .compileFunction (compileStmts_reports (known.enter params) false body _) anonymous _

theorem compileExprs_reports (known : Declared) : ∀ (items : List Expr) (code : Fragment),
    Reports (compileExprs builtins items code) known []
      (itemsOffences builtins.contains known items)
  | [], _ => Neutral.pure _ known
  | e :: rest, _ =>
    (compileExpr_reports known e).andThen fun _ => compileExprs_reports known rest _

theorem compileEntries_reports (known : Declared) :
    ∀ (entries : List (Expr × Expr)) (code : Fragment),
      Reports (compileEntries builtins entries code) known []
        (entriesOffences builtins.contains known entries)
  | [], _ => Neutral.pure _ known
  | (k, v) :: rest, _ =>
    (compileExpr_reports known k).andThen fun _ => (compileExpr_reports known v).andThen fun _ =>
      compileEntries_reports known rest _

theorem compileStmt_reports (known : Declared) (inLoop : Bool) : ∀ st : Stmt,
    Reports (compileStmt builtins inLoop st) known (st.declares known.inFunction)
      (st.offences builtins.contains known inLoop)
  | .var _ name value => by
    have hvalue : Reports (compileExpr builtins value) known []
        (value.offences builtins.contains known) := compileExpr_reports known value
    -- A function is declared before its body is compiled, so that it can call itself.
    cases value with
    | func funcSpan params body =>
      exact (Reports.declare name _).andLast fun _ =>
        (Reports.compileFunction (compileStmts_reports _ false body _) name _).andNeutral fun _ =>
          (Neutral.storeSymbol _ _).bind fun _ => .pure _
    | _ =>
      exact hvalue.andThen fun _ => (Reports.declare name _).andNeutral fun _ =>
        (Neutral.storeSymbol _ _).bind fun _ => .pure _
  | .assign _ (.ident _ name) value => by
    have hvalue : ∀ known : Declared, Reports (compileExpr builtins value) known []
        (value.offences builtins.contains known) := fun known => compileExpr_reports known value
    cases value with
    | func funcSpan params body =>
      exact (Reports.assignmentTarget name _).andLast fun _ =>
        (Reports.compileFunction (compileStmts_reports _ false body _) name _).andNeutral fun _ =>
          (Neutral.storeSymbol _ _).bind fun _ => .pure _
    | _ =>
      exact (Reports.assignmentTarget name _).andLast fun _ => (hvalue _).andNeutral fun _ =>
        (Neutral.storeSymbol _ _).bind fun _ => .pure _
  | .assign _ (.index _ object key) value =>
    (compileExpr_reports known value).andThen fun _ =>
      (compileExpr_reports known object).andThen fun _ =>
        (compileExpr_reports known key).andNeutral fun _ => .pure _
  | .assign _ (.attr _ object name) value =>
    (compileExpr_reports known value).andThen fun _ =>
      (compileExpr_reports known object).andNeutral fun _ => (Neutral.addName name _).bind fun _ =>
        (Neutral.emit _ _ _).bind fun _ => .pure _
  | .assign _ (.int ..) _ | .assign _ (.float ..) _ | .assign _ (.str ..) _
  | .assign _ (.bool ..) _ | .assign _ (.nil ..) _ | .assign _ (.list ..) _
  | .assign _ (.map ..) _ | .assign _ (.set ..) _ | .assign _ (.unary ..) _
  | .assign _ (.binary ..) _ | .assign _ (.logical ..) _ | .assign _ (.call ..) _
  | .assign _ (.func ..) _ => .fail _ _
  | .funcDef _ name params body =>
    (Reports.declare name _).andLast fun _ =>
      (Reports.compileFunction (compileStmts_reports _ false body _) name _).andNeutral fun _ =>
        (Neutral.storeSymbol _ _).bind fun _ => .pure _
  | .return span none => by
    have hnothing := Neutral.pure (#[.op ⟨.returnValue, [0]⟩] : Fragment) known
    have hreturn := Reports.returning hnothing span
    rwa [List.append_nil] at hreturn
  | .return span (some value) =>
    .returning ((compileExpr_reports known value).andNeutral fun _ => .pure _) span
  | .if _ cond thenBody none =>
    (compileExpr_reports known cond).andThen fun _ =>
      (compileStmts_reports known inLoop thenBody _).andNeutral fun _ =>
        (Neutral.emitJump _ _ _).bind fun _ => .pure _
  | .if _ cond thenBody (some elseBody) => by
    -- The second branch is compiled after the first, so it sees the names declared there.
    have helse := compileStmts_reports (known.declare (bodyDeclares known.inFunction thenBody))
      inLoop elseBody #[]
    rw [Declared.inFunction_declare] at helse
    exact (compileExpr_reports known cond).andThen fun _ =>
      (compileStmts_reports known inLoop thenBody _).bind fun _ =>
        (Neutral.emitJump _ _ _).before fun _ => helse.andNeutral fun _ =>
          (Neutral.emitJump _ _ _).bind fun _ => .pure _
  | .while _ cond body =>
    (compileStmts_reports known true body _).andLast fun _ =>
      (Neutral.emitJump _ _ _).before fun _ => (compileExpr_reports _ cond).andNeutral fun _ =>
        (Neutral.emit _ _ _).bind fun _ => .pure _
  | .break span => .leaving .break span
  | .continue span => .leaving .continue span
  | .print _ value | .expr _ value => (compileExpr_reports known value).andNeutral fun _ => .pure _
  | .delete _ object key =>
    (compileExpr_reports known object).andThen fun _ =>
      (compileExpr_reports known key).andNeutral fun _ => .pure _

theorem compileStmts_reports (known : Declared) (inLoop : Bool) :
    ∀ (body : List Stmt) (code : Fragment),
      Reports (compileStmts builtins inLoop body code) known (bodyDeclares known.inFunction body)
        (bodyOffences builtins.contains known inLoop body)
  | [], _ => Neutral.pure _ known
  | st :: rest, code => by
    refine (compileStmt_reports known inLoop st).bind fun more => ?_
    have hrest := compileStmts_reports (known.declare (st.declares known.inFunction)) inLoop rest
      (code ++ more)
    rwa [Declared.inFunction_declare] at hrest

end

theorem compileChunk_reports (known : Declared) (statements : List Stmt) (code : Fragment) :
    Reports (compileChunk builtins statements code) known (bodyDeclares known.inFunction statements)
      (bodyOffences builtins.contains known false statements) := by
  fun_induction compileChunk builtins statements code generalizing known with
  | case1 code => exact Neutral.pure _ known
  | case2 span value code =>
    have hread : Reports (compileExpr builtins value) known []
        (value.offences builtins.contains known) := compileExpr_reports known value
    have hvalue := hread.andNeutral fun more =>
      Neutral.pure ((code ++ more).push (.op ⟨.halt, []⟩))
    rwa [← List.append_nil (value.offences builtins.contains known)] at hvalue
  | case3 st rest code hne ih =>
    refine (compileStmt_reports known false st).bind fun more => ?_
    have hrest := ih more (known.declare (st.declares known.inFunction))
    rwa [Declared.inFunction_declare] at hrest

end

/-! ## Targets -/

/-- No program that has been read assigns to something that is no target. -/
theorem inherited_targets (reserved : String → Bool) :
    Inherited (fun _ => True)
      (fun e => ∀ known, CompileFault.invalidTarget ∉ e.offences reserved known)
      (fun st => ∀ known inLoop,
        CompileFault.invalidTarget ∉ st.offences reserved known inLoop) where
  int _ _ _ := List.not_mem_nil
  float _ _ _ _ := List.not_mem_nil
  str _ _ _ := List.not_mem_nil
  bool _ _ _ := List.not_mem_nil
  nil _ _ := List.not_mem_nil
  ident _ _ _ := List.not_mem_nil
  list _ _ h _ := not_mem_itemsOffences h
  map _ _ h _ := not_mem_entriesOffences h
  set _ _ h _ := not_mem_itemsOffences h
  unary _ _ _ h := h
  binary _ _ _ _ hleft hright known := by simp [Expr.offences, hleft known, hright known]
  logical _ _ _ _ hleft hright known := by simp [Expr.offences, hleft known, hright known]
  call _ _ _ hcallee hargs known := by
    simp [Expr.offences, hcallee known, not_mem_itemsOffences hargs]
  index _ _ _ hobject hkey known := by simp [Expr.offences, hobject known, hkey known]
  attr _ _ _ h := h
  func _ _ _ h _ := not_mem_bodyOffences h
  var _ name value h known inLoop := by
    have hvalue := h (known.declare [name])
    cases value with
    | func => simp [Stmt.offences, show _ ∉ bodyOffences _ _ _ _ from hvalue]
    | _ => simp [Stmt.offences, h known]
  assign _ target value htarget hobject hvalue known inLoop := by
    have hobject := hobject known
    cases target with
    | ident => simp [Stmt.offences, hvalue]
    | index => simpa [Stmt.offences, Expr.offences, hvalue known] using hobject
    | attr => simpa [Stmt.offences, Expr.offences, hvalue known] using hobject
    | _ => cases htarget
  funcDef _ _ _ _ h known inLoop := by simp [Stmt.offences, not_mem_bodyOffences h]
  returnNone _ known inLoop := by simp [Stmt.offences]
  returnSome _ _ h known inLoop := by simp [Stmt.offences, h known]
  ifOnly _ _ _ hcond hthen known inLoop := by
    simp [Stmt.offences, hcond known, not_mem_bodyOffences hthen]
  ifElse _ _ _ _ hcond hthen helse known inLoop := by
    simp [Stmt.offences, hcond known, not_mem_bodyOffences hthen, not_mem_bodyOffences helse]
  «while» _ _ _ hcond hbody known inLoop := by
    simp [Stmt.offences, hcond, not_mem_bodyOffences hbody]
  «break» _ known inLoop := by simp [Stmt.offences]
  «continue» _ known inLoop := by simp [Stmt.offences]
  print _ _ h known _ := h known
  delete _ _ _ _ h known _ := h known
  expr _ _ h known _ := h known

/-! ## Sessions -/

namespace Compiler

variable {c c' : Compiler} {p : Program} {session : List String}

/-- Those of some programs that are not refused when one is compiled after the other. -/
def accepted (c : Compiler) : List Program → List Program
  | [] => []
  | p :: rest =>
    match c.compile p with
    | .ok (_, c') => p :: c'.accepted rest
    | .error _ => c.accepted rest

theorem heldBy_start (builtins : Array String) (firstId : Nat) :
    Declared.HeldBy ⟨[], []⟩ [(start builtins firstId).scope] :=
  .top rfl fun n => by simp [start, Scope.topLevel]

theorem compile_reports (hc : Declared.HeldBy ⟨session, []⟩ [c.scope]) :
    (∀ range c', c.compile p = .ok (range, c') → p.offences c.builtins.contains session = [] ∧
      Declared.HeldBy ⟨session ++ p.declares, []⟩ [c'.scope]) ∧
    (∀ e, c.compile p = .error e → e.fault.isLimit = true ∨
      (p.offences c.builtins.contains session).head? = some e.fault) := by
  have hreports : Reports (compileChunk c.builtins p.statements #[]) ⟨session, []⟩ p.declares
      (p.offences c.builtins.contains session) := compileChunk_reports _ p.statements #[]
  refine ⟨fun range c' h => ?_, fun e h => ?_⟩
  · obtain ⟨fragment, ⟨pools, scopes, nextId⟩, hchunk, -, rfl⟩ := compile_eq_ok h
    obtain ⟨hnone, hheld⟩ := hreports.done hc hchunk
    refine ⟨hnone, ?_⟩
    change Declared.HeldBy ⟨session ++ p.declares, []⟩ scopes at hheld
    cases hheld with
    | top hkind hdeclared => exact .top hkind hdeclared
  · unfold compile submit at h
    cases hchunk : compileChunk c.builtins p.statements #[] c.state with
    | error failed =>
      rw [hchunk] at h
      cases h
      exact hreports.refused hc hchunk
    | ok found =>
      rw [hchunk] at h
      cases h

/-- At the top level just those names have been declared that a program which was not refused
declares. -/
theorem heldBy_after (hc : Declared.HeldBy ⟨session, []⟩ [c.scope]) (programs : List Program) :
    Declared.HeldBy ⟨session ++ (c.accepted programs).flatMap Program.declares, []⟩
      [(c.after programs).scope] := by
  induction programs generalizing c session with
  | nil =>
    rw [accepted, List.flatMap_nil, List.append_nil]
    exact hc
  | cons p rest ih =>
    rw [accepted, after]
    cases hcompile : c.compile p with
    | error e => exact ih hc
    | ok found =>
      obtain ⟨range, c'⟩ := found
      obtain ⟨-, hc'⟩ := (compile_reports hc).1 range c' hcompile
      dsimp only
      rw [List.flatMap_cons, ← List.append_assoc]
      exact ih hc'

theorem builtins_after (programs : List Program) : (c.after programs).builtins = c.builtins := by
  induction programs generalizing c with
  | nil => rfl
  | cons p rest ih =>
    rw [after]
    split
    · rename_i range c' hok
      obtain ⟨_, _, -, -, rfl⟩ := compile_eq_ok hok
      exact ih
    · exact ih

end Compiler

/-- A program that has been read, and everything in which fits, is refused just if it has an
offence, wherever that is, and then for the first one: a return outside every function, an exit
outside every loop of the same function, a builtin that is declared at the top level, or an
assignment in a function to a name that neither a function around it nor the session has declared so
far, in the order in which the program is compiled. -/
theorem programs_refused_for_offences (builtins : Array String) (firstId : Nat)
    (earlier : List Program) (session : List String) (source : String) (p : Program) (c : Compiler)
    (hread : parse source = .ok p) (hc : c = (Compiler.start builtins firstId).after earlier)
    (hsession : session =
      ((Compiler.start builtins firstId).accepted earlier).flatMap Program.declares)
    (hfits : ∀ d ∈ (c.survey p).demands, d.fits = true) :
    ((∃ e, c.compile p = .error e) ↔ p.offences builtins.contains session ≠ []) ∧
    (∀ e, c.compile p = .error e →
      (p.offences builtins.contains session).head? = some e.fault) ∧
    CompileFault.invalidTarget ∉ p.offences builtins.contains session := by
  have hmoderate := Compiler.moderate_after (Compiler.sound_start builtins firstId)
    (Compiler.moderate_start builtins firstId) earlier
  have hheld := Compiler.heldBy_after (Compiler.heldBy_start builtins firstId) earlier
  have hbuiltins : c.builtins.contains = builtins.contains := by
    funext name
    rw [hc, Compiler.builtins_after, Bool.eq_iff_iff, Compiler.contains_start,
      Array.contains_iff_mem]
  rw [List.nil_append, ← hsession, ← hc] at hheld
  rw [← hc] at hmoderate
  obtain ⟨haccepted, hrefused⟩ := Compiler.compile_reports (p := p) hheld
  rw [hbuiltins] at haccepted hrefused
  have hfirst : ∀ e, c.compile p = .error e →
      (p.offences builtins.contains session).head? = some e.fault := by
    intro e he
    rcases hrefused e he with hlimit | hfirst
    · rw [← List.all_eq_true, Compiler.compile_refused hmoderate he hlimit] at hfits
      cases hfits
    · exact hfirst
  refine ⟨⟨fun ⟨e, he⟩ hnone => ?_, fun hsome => ?_⟩, hfirst, ?_⟩
  · have hhead := hfirst e he
    rw [hnone] at hhead
    cases hhead
  · cases hcompile : c.compile p with
    | error e => exact ⟨e, rfl⟩
    | ok found => exact absurd (haccepted found.1 found.2 hcompile).1 hsome
  · exact not_mem_bodyOffences (parse_inherits (inherited_targets _) (fun _ _ _ _ => trivial) hread)

/-- An assignment that can never be reached. -/
def unreachableOffence : Program :=
  ⟨[.while ⟨1, 1⟩ (.bool ⟨1, 7⟩ true)
    [.break ⟨1, 14⟩,
      .expr ⟨1, 21⟩ (.func ⟨1, 21⟩ []
        [.return ⟨1, 30⟩ none, .assign ⟨1, 38⟩ (.ident ⟨1, 38⟩ "y") (.nil ⟨1, 42⟩)])]]⟩

/-- The program is refused for it: what it assigns to is declared nowhere. -/
theorem programs_refused_for_unreachable_offence : ∃ e,
    parse "while true { break; func() { return; y = nil } }" = .ok unreachableOffence ∧
      (Compiler.start #["len"] 0).compile unreachableOffence = .error e ∧
      e.fault = .undeclaredAssignment "y" := by
  have hread : parse "while true { break; func() { return; y = nil } }" =
      .ok unreachableOffence := by cbv
  have hfits : ∀ d ∈ ((Compiler.start #["len"] 0).survey unreachableOffence).demands,
      d.fits = true := by
    simp [Compiler.survey, Compiler.tables, Compiler.start, unreachableOffence, surveyChunk,
      Stmt.survey, surveyBody, Expr.survey, Survey.function, Survey.within, Survey.target,
      Survey.resolve, Survey.need, Survey.constant, Survey.access, Survey.name, Scope.resolve,
      Scope.topLevel, Scope.function, Scope.isFunction, OrderedMap.position?_empty, Pools.empty,
      Demand.fits, bind, pure]
  have hoffences : unreachableOffence.offences (#["len"] : Array String).contains [] =
      [.undeclaredAssignment "y"] := by decide +kernel
  obtain ⟨hiff, hfirst, -⟩ := programs_refused_for_offences #["len"] 0 [] [] _ unreachableOffence _
    hread rfl rfl hfits
  obtain ⟨e, he⟩ := hiff.2 (by rw [hoffences]; exact List.cons_ne_nil _ _)
  have hfault := hfirst e he
  rw [hoffences] at hfault
  exact ⟨e, hread, he, (Option.some.inj hfault).symm⟩

end Ember
