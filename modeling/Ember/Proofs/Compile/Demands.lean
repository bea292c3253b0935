import Mathlib
import Ember.Proofs.Compile.Layout
import Ember.Proofs.Compile.Survey

/-! The survey of a program is in step with the compiler all the way: a program with a demand that
does not fit is refused, and one that is refused for a limit has such a demand. So no operand of a
program that is compiled is other than it was meant. -/
namespace Ember
set_option autoImplicit false

open CompileM Survey

/-! ## Functions -/

namespace Scope

theorem widen_function {s : Scope} (hkind : s.kind = .function) (name : String) :
    (s.widen name).2.kind = .function ∧ (s.widen name).2.captured = s.captured ∧
      (s.widen name).2.locals.size ≤ s.locals.size + 1 := by
  unfold widen
  rw [hkind]
  dsimp only
  split
  · exact ⟨hkind, rfl, Nat.le_succ _⟩
  · rename_i hnone
    exact ⟨rfl, rfl, Nat.le_of_eq (OrderedMap.size_insert_of_none hnone ())⟩

end Scope

/-- There are slots for all parameters if they can be counted. -/
theorem parameterScope_eq {params : List String} (h : params.length ≤ maxArguments) (name : String)
    (span : Span) :
    ∃ scope : Scope, parameterScope name params span = pure scope ∧ scope.Small ∧
      scope = params.foldl (fun scope param => (scope.widen param).2) (Scope.function name) := by
  have hstart : (Scope.function name).locals.size + params.length ≤ Scope.slotLimit :=
    Nat.le_trans (Nat.le_of_eq (Nat.zero_add _)) (Nat.le_trans h (by decide))
  have hcaptured : (Scope.function name).captured = .empty := rfl
  have hkind : (Scope.function name).kind = .function := rfl
  unfold parameterScope
  generalize Scope.function name = start at hstart hcaptured hkind
  have hsmall : ∀ {s : Scope}, s.captured = .empty → s.locals.size ≤ Scope.slotLimit → s.Small := by
    intro s hempty hle
    refine ⟨hle, fun e he => ?_⟩
    rw [hempty, OrderedMap.entries_empty] at he
    exact absurd he (Array.not_mem_empty e)
  clear h
  induction params generalizing start with
  | nil => exact ⟨start, rfl, hsmall hcaptured hstart, rfl⟩
  | cons param params ih =>
    rw [List.length_cons] at hstart
    obtain ⟨hkind', hcaptured', hsize⟩ := Scope.widen_function hkind param
    have hdeclare : start.declare param = (some (start.widen param).1, (start.widen param).2) := by
      rcases Scope.declare_eq (hsmall hcaptured (by omega)) param with ⟨-, h, -⟩ | ⟨hlt, -⟩
      · exact h
      · omega
    rw [List.foldlM_cons, hdeclare, List.foldl_cons]
    dsimp only
    rw [pure_bind]
    exact ih _ (by omega) (hcaptured'.trans hcaptured) hkind'

namespace Tallies

/-- What both have come to of a piece of code. -/
def SameSize (code : Fragment) (n : Nat) : Prop := code.byteSize = n

/-- The body of a function has tables of its own. -/
theorem within {body : CompileM Fragment} {y : Survey Nat} (hbody : Tallies body y SameSize)
    (name : String) {params : List String} (hparams : params.length ≤ maxArguments) (span : Span) :
    Tallies (do
      let scope ← parameterScope name params span
      let outer ← enterFunction scope
      let code ← compileBody outer body
      leaveFunction outer name params (code.push (.op ⟨.returnValue, [0]⟩)))
      (Survey.within name params y)
      (fun g n => g.freeVariables.size = n ∧
        ∀ v ∈ g.freeVariables, v.capture.index < Scope.slotLimit) := by
  obtain ⟨scope, hscope, hsmall, heq⟩ := parameterScope_eq hparams name span
  rw [hscope, pure_bind]
  have henter : ∀ {s t}, Matches s t →
      Matches { s with pools := .empty, scopes := scope :: s.scopes }
        ⟨[], [], scope :: t.scopes⟩ := by
    intro s t hm
    exact ⟨rfl, by simp [Pools.empty], congrArg _ hm.scopes, Nat.zero_le _, Nat.zero_le _,
      List.forall_mem_cons.2 ⟨hsmall, hm.small⟩, List.cons_ne_nil _ _⟩
  refine ⟨fun s s' t g hm hx => ?_, fun s s' t e hm hx hlimit => ?_⟩
  · obtain ⟨outer, s₁, hentered, h₁⟩ := bind_eq_ok.1 hx
    cases hentered
    obtain ⟨code, s₂, hcode, h₂⟩ := bind_eq_ok.1 h₁
    cases h₂
    obtain ⟨-, hm₂, hlength, hfits⟩ := hbody.done (henter hm) (compileBody_eq_ok.1 hcode)
    unfold Survey.within
    rw [← heq]
    dsimp only
    rw [List.length_cons] at hlength
    have hscopes := hm₂.scopes
    refine ⟨⟨?_, fun v hv => ?_⟩, ⟨hm.constants, hm.names, ?_, hm.constants_le, hm.names_le, ?_,
      ?_⟩, ?_, hfits⟩
    · rw [hscopes]
      exact Array.size_map
    · obtain ⟨e, he, rfl⟩ := Array.mem_map.1 hv
      obtain ⟨inner, rest, hcons⟩ := List.exists_cons_of_ne_nil hm₂.nonempty
      rw [hcons] at he
      exact (hm₂.small inner (by rw [hcons]; exact List.mem_cons_self)).captured e he
    · rw [hscopes]
    · exact fun scope' h => hm₂.small scope' (List.mem_of_mem_drop h)
    · intro hnil
      have := congrArg List.length hnil
      rw [List.length_drop, List.length_nil] at this
      exact hm.nonempty (List.length_eq_zero_iff.1 (by omega))
    · rw [List.length_drop]
      omega
  · change (compileBody s.pools body { s with pools := .empty, scopes := scope :: s.scopes } >>=
      fun p => leaveFunction s.pools name params (p.1.push (.op ⟨.returnValue, [0]⟩)) p.2) =
        .error (e, s') at hx
    unfold Survey.within
    rw [← heq]
    cases hs : body { s with pools := .empty, scopes := scope :: s.scopes } with
    | ok found =>
      unfold compileBody at hx
      rw [hs] at hx
      cases hx
    | error failed =>
      unfold compileBody at hx
      rw [hs] at hx
      cases hx
      exact hbody.refused (henter hm) hs hlimit

theorem makeCells {captured : List FreeVariable}
    (h : ∀ v ∈ captured, v.capture.index < Scope.slotLimit) (span : Span) :
    captured.mapM (fun v => makeCell v span) =
      (Pure.pure (captured.map fun v => .op ⟨.makeCell, v.capture.operands⟩) :
        CompileM (List Item)) := by
  induction captured with
  | nil => rfl
  | cons v captured ih =>
    obtain ⟨hv, hrest⟩ := List.forall_mem_cons.1 h
    have hcell : makeCell v span = Pure.pure (.op ⟨.makeCell, v.capture.operands⟩) := by
      have hfit : ∀ {k : Nat}, k < 256 → misfit? [v.capture.index, k] [2, 1] = none := by
        intro k hk
        rw [misfit?, if_pos (show v.capture.index < Nat.pow 256 2 from hv)]
        exact misfit?_single hk
      unfold makeCell
      cases hc : v.capture with
      | slot i =>
        rw [hc] at hfit
        exact emit_of_fits (show misfit? [i, 0] (Opcode.widths .makeCell) = none from
          hfit (by decide)) span
      | free i =>
        rw [hc] at hfit
        exact emit_of_fits (show misfit? [i, 1] (Opcode.widths .makeCell) = none from
          hfit (by decide)) span
    rw [List.mapM_cons, hcell, ih hrest, pure_bind, pure_bind, List.map_cons]

/-- A closure can be made if its captured variables can be counted. -/
theorem loadFunction {g : Routine Value}
    (h : ∀ v ∈ g.freeVariables, v.capture.index < Scope.slotLimit) (span : Span) :
    Tallies (loadFunction g span) (do
      constant none
      need (.captures g.freeVariables.size)
      return if g.freeVariables.size = 0 then 3 else 4 * g.freeVariables.size + 5) SameSize := by
  unfold Ember.loadFunction
  refine (addConstant (.function g) span).bind fun i _ hi => ?_
  have hloadConst : misfit? [i] (Opcode.widths .loadConst) = none := misfit?_single hi
  dsimp only
  split
  · rename_i hempty
    rw [Array.isEmpty_iff_size_eq_zero.1 hempty, emit_of_fits hloadConst]
    exact .noted rfl (.pure rfl)
  · rename_i hempty
    have hne : g.freeVariables.size ≠ 0 := fun h => hempty (Array.isEmpty_iff_size_eq_zero.2 h)
    have hfits : (Demand.captures g.freeVariables.size).fits =
        (misfit? [i, g.freeVariables.size] (Opcode.widths .loadClosure)).isNone := by
      rw [Opcode.widths, misfit?, if_pos (show i < Nat.pow 256 2 from hi)]
      exact (isNone_misfit?_word _).symm
    have hcells : ∀ v ∈ g.freeVariables.toList, v.capture.index < Scope.slotLimit :=
      fun v hv => h v (Array.mem_toList_iff.1 hv)
    rw [Array.mapM_eq_mapM_toList, makeCells hcells, map_pure, pure_bind, if_neg hne]
    refine (emit hfits span).bind fun item _ hitem => .pure ?_
    subst hitem
    have hgathered : ∀ captured : List FreeVariable,
        itemsSize (captured.map fun v => .op ⟨.makeCell, v.capture.operands⟩) =
          4 * captured.length := by
      intro captured
      induction captured with
      | nil => rfl
      | cons v captured ih =>
        have hcell : Item.size (.op ⟨.makeCell, v.capture.operands⟩) = 4 := rfl
        rw [List.map_cons, itemsSize_cons, ih, hcell, List.length_cons]
        omega
    rw [SameSize, Fragment.byteSize_eq, Array.toList_push, itemsSize_append, hgathered,
      Array.length_toList]
    rfl

/-- A function, from the survey of its body. -/
theorem compileFunction {body : CompileM Fragment} {y : Survey Nat}
    (hbody : Tallies body y SameSize) (name : String) (params : List String) (span : Span) :
    Tallies (compileFunction name params span body) (Survey.function name params y) SameSize := by
  unfold Ember.compileFunction Survey.function
  refine (checkCount rfl "parameters" span).bind fun _ _ hparams => ?_
  have hload : ∀ (g : Routine Value) (n : Nat), (g.freeVariables.size = n ∧
      ∀ v ∈ g.freeVariables, v.capture.index < Scope.slotLimit) →
      Tallies (Ember.loadFunction g span) (do
        constant none
        need (.captures n)
        return if n = 0 then 3 else 4 * n + 5) SameSize := by
    rintro g _ ⟨rfl, hsmall⟩
    exact loadFunction hsmall span
  have hwhole := (within hbody name hparams span).bind hload
  simpa only [bind_assoc] using hwhole

/-! ## All of the syntax -/

theorem literal (v : Value) (span : Span) : Tallies (loadConstant v span) (literal v) SameSize := by
  refine (addConstant v span).bind fun i _ hi => ?_
  have hfit : misfit? [i] (Opcode.widths .loadConst) = none := misfit?_single hi
  rw [emit_of_fits hfit, pure_bind]
  exact .pure rfl

theorem loadSymbol {symbol symbol' : Symbol} (h : SameSymbol symbol symbol') (span : Span) :
    Tallies (loadSymbol symbol span) (access symbol') (fun item n => item.size = n) := by
  obtain ⟨rfl, hsmall⟩ := h
  rw [loadSymbol_eq]
  exact accessSymbol rfl rfl rfl rfl hsmall span

theorem storeSymbol {symbol symbol' : Symbol} (h : SameSymbol symbol symbol') (span : Span) :
    Tallies (storeSymbol symbol span) (access symbol') (fun item n => item.size = n) := by
  obtain ⟨rfl, hsmall⟩ := h
  rw [storeSymbol_eq]
  exact accessSymbol rfl rfl rfl rfl hsmall span

end Tallies

namespace Fragment

theorem byteSize_push (a : Fragment) (item : Item) :
    Fragment.byteSize (a.push item) = a.byteSize + item.size := by
  rw [byteSize_eq, byteSize_eq, Array.toList_push, itemsSize_append]
  rfl

theorem byteSize_append (a b : Fragment) :
    Fragment.byteSize (a ++ b) = a.byteSize + b.byteSize := by
  rw [byteSize_eq, byteSize_eq, byteSize_eq, Array.toList_append, itemsSize_append]

end Fragment

section
variable {builtins : Std.HashSet String}

/-- The code that is added has been surveyed. -/
def AddsSize (code code' : Fragment) (n : Nat) : Prop := code'.byteSize = code.byteSize + n

namespace Tallies

variable {x x' : CompileM Fragment} {y y' : Survey Nat}

theorem whole (hx : Tallies x y (AddsSize #[])) : Tallies x y SameSize := by
  refine ⟨fun s s' t code hm h => ?_, hx.refused⟩
  obtain ⟨hsize, hrest⟩ := hx.done hm h
  exact ⟨hsize.trans (Nat.zero_add _), hrest⟩

/-- One instruction after the code. -/
theorem unary {ins : Instruction} {k : Nat} (hx : Tallies x y SameSize) (hsize : ins.size = k) :
    Tallies (do return (← x).push (.op ins)) (do return (← y) + k) SameSize := by
  refine hx.bind fun code n hcode => .pure ?_
  rw [SameSize, Fragment.byteSize_push, hcode, Item.size, hsize]

/-- An instruction whose operand fits. -/
theorem gather (op : Opcode) {count k : Nat} {span : Span} (hx : Tallies x y SameSize)
    (hfit : misfit? [count] op.widths = none) (hsize : op.size = k) :
    Tallies (do return (← x).push (← CompileM.emit op [count] span)) (do return (← y) + k)
      SameSize := by
  rw [emit_of_fits hfit]
  exact hx.unary hsize

theorem binary {ins : Instruction} {k : Nat} (hx : Tallies x y SameSize)
    (hx' : Tallies x' y' SameSize) (hsize : ins.size = k) :
    Tallies (do
      let first ← x
      let second ← x'
      return (first ++ second).push (.op ins)) (do
      let first ← y
      let second ← y'
      return first + second + k) SameSize := by
  refine hx.bind fun first n hfirst => hx'.bind fun second m hsecond => .pure ?_
  rw [SameSize, Fragment.byteSize_push, Fragment.byteSize_append, hfirst, hsecond, Item.size, hsize]

/-- An attribute is named in the table of names. -/
theorem attr {op : Opcode} (hop : op.widths = [2]) {code : Fragment} {n : Nat}
    (hcode : SameSize code n) (name : String) (span : Span) :
    Tallies (do return code.push (← CompileM.emit op [← CompileM.addName name span] span)) (do
      Survey.name name
      return n + 3) SameSize := by
  refine (addName name span).bind fun i _ hi => ?_
  rw [emit_of_fits (by rw [hop]; exact misfit?_single hi), pure_bind]
  refine .pure ?_
  rw [SameSize, Fragment.byteSize_push, hcode, Item.size, Instruction.size, Opcode.size, hop]
  rfl

theorem joinConnective (op : Connective) {first second : Fragment} {n m : Nat}
    (hfirst : SameSize first n) (hsecond : SameSize second m) (span : Span) :
    Tallies (joinConnective op first second span) (do
      need (.jump (m + 7))
      return n + 3 + m + 8) SameSize := by
  have hjump : ∀ (op : Opcode) {distance : Nat}, distance ≤ maxJump →
      CompileM.emitJump op distance span = Pure.pure (jumpOver op distance) :=
    fun op distance h => if_pos h
  have hsecond' : second.byteSize = m := hsecond
  unfold Ember.joinConnective
  rw [hsecond']
  cases op <;>
  · refine (emitJump _ (m + 7) span).bind fun item _ hitem => ?_
    subst hitem
    rw [hjump _ (by decide), pure_bind, hjump _ (by decide), pure_bind]
    refine .pure ?_
    simp only [SameSize, Fragment.byteSize_push, Fragment.byteSize_append, hsecond',
      show first.byteSize = n from hfirst]
    rfl

theorem returning (hx : Tallies x y SameSize) (span : Span) :
    Tallies (do if ← CompileM.inFunction then x else CompileM.fail .returnOutsideFunction span) y
      SameSize := by
  refine .of_state fun s t hm => ?_
  cases hinside : (s.scopes.head?.map Scope.isFunction).getD false with
  | false =>
    exact ⟨CompileM.fail .returnOutsideFunction span, y, congrFun (if_neg (by simp [hinside])) s,
      rfl, .fail rfl span⟩
  | true => exact ⟨x, y, congrFun (if_pos hinside) s, rfl, hx⟩

theorem exit {inLoop : Bool} {keyword : Keyword} (way : LoopExit) (span : Span) :
    Tallies (if inLoop then Pure.pure #[.hole way] else CompileM.fail (.outsideLoop keyword) span)
      (return 3) SameSize := by
  cases inLoop with
  | false => exact .fail rfl span
  | true => exact .pure rfl

/-- A value is stored where the symbol says. -/
theorem store {code : Fragment} {n : Nat} (hcode : SameSize code n) {symbol symbol' : Symbol}
    (h : SameSymbol symbol symbol') (span : Span) :
    Tallies (do return code.push (← Ember.storeSymbol symbol span))
      (do return n + (← access symbol'))
      SameSize := by
  refine (storeSymbol h span).bind fun item k hitem => .pure ?_
  rw [SameSize, Fragment.byteSize_push, hcode, hitem]

end Tallies

open Tallies

theorem misfit?_elements {count : Nat} (h : count ≤ maxParts) : misfit? [count] [2] = none :=
  misfit?_single (Nat.lt_succ_of_le h)

mutual

theorem compileExpr_tallies : ∀ e : Expr, Tallies (compileExpr builtins e) e.survey SameSize
  | .int span n => .literal _ span
  | .float span x => .literal _ span
  | .str span s => .literal _ span
  | .bool _ true | .bool _ false | .nil _ => .pure rfl
  | .ident span n => by
    refine .bind (.resolve n) fun symbol symbol' h => ?_
    refine (Tallies.loadSymbol h span).mapLeft fun item k hitem => ?_
    rw [SameSize, ← hitem]
    exact Nat.zero_add _
  | .list span items =>
    .bind (.checkCount rfl _ span) fun _ _ hcount =>
      (compileExprs_tallies items #[]).whole.gather .buildList (misfit?_elements hcount) rfl
  | .set span items =>
    .bind (.checkCount rfl _ span) fun _ _ hcount =>
      (compileExprs_tallies items #[]).whole.gather .buildSet (misfit?_elements hcount) rfl
  | .map span entries =>
    .bind (.checkCount rfl _ span) fun _ _ hcount =>
      (compileEntries_tallies entries #[]).whole.gather .buildMap (misfit?_elements hcount) rfl
  | .unary _ op operand => (compileExpr_tallies operand).unary (by cases op <;> rfl)
  | .binary _ op left right =>
    (compileExpr_tallies left).binary (compileExpr_tallies right) (by cases op <;> rfl)
  | .logical span op left right =>
    .bind (compileExpr_tallies left) fun _ _ hleft => .bind (compileExpr_tallies right)
      fun _ _ hright => .joinConnective op hleft hright span
  | .call span callee args =>
    .bind (.checkCount rfl _ span) fun _ _ hcount =>
      .bind (compileExpr_tallies callee) fun code n hcode =>
        .bind (compileExprs_tallies args code) fun code' m hargs => by
          have hfit : misfit? [args.length] (Opcode.widths .call) = none :=
            misfit?_single (Nat.lt_succ_of_le hcount)
          rw [emit_of_fits hfit, pure_bind]
          refine .pure ?_
          rw [SameSize, Fragment.byteSize_push, hargs, hcode]
          rfl
  | .index _ object key => (compileExpr_tallies object).binary (compileExpr_tallies key) rfl
  | .attr span object n =>
    .bind (compileExpr_tallies object) fun _ _ hobject => .attr rfl hobject n span
  | .func span params body =>
    .compileFunction (compileStmts_tallies false body #[]).whole anonymous params span

theorem compileExprs_tallies : ∀ (items : List Expr) (code : Fragment),
    Tallies (compileExprs builtins items code) (surveyItems items) (AddsSize code)
  | [], code => .pure rfl
  | e :: rest, code =>
    .bind (compileExpr_tallies e) fun more n hmore =>
      (compileExprs_tallies rest (code ++ more)).mapRight fun code' m h => by
        rw [AddsSize, h, Fragment.byteSize_append, hmore]
        exact Nat.add_assoc _ _ _

theorem compileEntries_tallies : ∀ (entries : List (Expr × Expr)) (code : Fragment),
    Tallies (compileEntries builtins entries code) (surveyEntries entries) (AddsSize code)
  | [], code => .pure rfl
  | (k, v) :: rest, code =>
    .bind (compileExpr_tallies k) fun first n hfirst =>
      .bind (compileExpr_tallies v) fun second m hsecond =>
        (compileEntries_tallies rest (code ++ first ++ second)).mapRight fun code' l h => by
          rw [AddsSize, h, Fragment.byteSize_append, Fragment.byteSize_append, hfirst, hsecond]
          omega

theorem compileStmt_tallies (inLoop : Bool) : ∀ st : Stmt,
    Tallies (compileStmt builtins inLoop st) st.survey SameSize
  | .var span n value => by
    have hvalue : Tallies (compileExpr builtins value) value.survey SameSize :=
      compileExpr_tallies value
    cases value with
    | func funcSpan params body =>
      exact .bind (.declare builtins n span) fun _ _ hsymbol =>
        .bind (.compileFunction (compileStmts_tallies false body #[]).whole n params funcSpan)
          fun _ _ hcode => .store hcode hsymbol span
    | _ =>
      exact hvalue.bind fun _ _ hcode => .bind (.declare builtins n span) fun _ _ hsymbol =>
        .store hcode hsymbol span
  | .assign span (.ident targetSpan n) value => by
    have hvalue : Tallies (compileExpr builtins value) value.survey SameSize :=
      compileExpr_tallies value
    cases value with
    | func funcSpan params body =>
      exact .bind (.assignmentTarget builtins n targetSpan) fun _ _ hsymbol =>
        .bind (.compileFunction (compileStmts_tallies false body #[]).whole n params funcSpan)
          fun _ _ hcode => .store hcode hsymbol span
    | _ =>
      exact .bind (.assignmentTarget builtins n targetSpan) fun _ _ hsymbol =>
        hvalue.bind fun _ _ hcode => .store hcode hsymbol span
  | .assign _ (.index _ object key) value =>
    .bind (compileExpr_tallies value) fun first n hfirst =>
      .bind (compileExpr_tallies object) fun second m hsecond =>
        .bind (compileExpr_tallies key) fun third k hthird => .pure (by
          rw [SameSize, Fragment.byteSize_push, Fragment.byteSize_append, Fragment.byteSize_append,
            hfirst, hsecond, hthird]
          rfl)
  | .assign span (.attr _ object n) value =>
    .bind (compileExpr_tallies value) fun first n hfirst =>
      .bind (compileExpr_tallies object) fun second m hsecond =>
        .attr rfl (by rw [SameSize, Fragment.byteSize_append, hfirst, hsecond]) _ span
  | .assign _ (.int ..) _ | .assign _ (.float ..) _ | .assign _ (.str ..) _
  | .assign _ (.bool ..) _ | .assign _ (.nil ..) _ | .assign _ (.list ..) _
  | .assign _ (.map ..) _ | .assign _ (.set ..) _ | .assign _ (.unary ..) _
  | .assign _ (.binary ..) _ | .assign _ (.logical ..) _ | .assign _ (.call ..) _
  | .assign _ (.func ..) _ => .fail rfl _
  | .funcDef span n params body =>
    .bind (.declare builtins n span) fun _ _ hsymbol =>
      .bind (.compileFunction (compileStmts_tallies false body #[]).whole n params span)
        fun _ _ hcode => .store hcode hsymbol span
  | .return span none => .returning (.pure rfl) span
  | .return span (some value) => .returning ((compileExpr_tallies value).unary rfl) span
  | .if span cond thenBody none =>
    .bind (compileExpr_tallies cond) fun test n htest =>
      .bind (compileStmts_tallies inLoop thenBody #[]).whole fun first m hfirst => by
        rw [show first.byteSize = m from hfirst]
        refine .bind (.emitJump _ m span) fun item _ hitem => .pure ?_
        subst hitem
        rw [SameSize, Fragment.byteSize_append, Fragment.byteSize_push, htest, hfirst]
        rfl
  | .if span cond thenBody (some elseBody) =>
    .bind (compileExpr_tallies cond) fun test n htest =>
      .bind (compileStmts_tallies inLoop thenBody #[]).whole fun first m hfirst => by
        rw [show first.byteSize = m from hfirst]
        refine .bind (.emitJump _ (m + 3) span) fun item _ hitem =>
          .bind (compileStmts_tallies inLoop elseBody #[]).whole fun second k hsecond => ?_
        rw [show second.byteSize = k from hsecond]
        refine .bind (.emitJump _ k span) fun item' _ hitem' => .pure ?_
        subst hitem hitem'
        rw [SameSize, Fragment.byteSize_append, Fragment.byteSize_push, Fragment.byteSize_append,
          Fragment.byteSize_push, htest, hfirst, hsecond]
        rfl
  | .while span cond body =>
    .bind (compileStmts_tallies true body #[]).whole fun inner n hinner => by
      dsimp only
      rw [show inner.byteSize = n from hinner]
      refine .bind (.emitJump _ n span) fun item _ hitem =>
        .bind (compileExpr_tallies cond) fun test m htest => ?_
      rw [show test.byteSize = m from htest]
      have hfits : (Demand.jump (n + (m + 3))).fits =
          (misfit? [n + (m + 3)] (Opcode.widths .popJumpBackwardIfTrue)).isNone :=
        (isNone_misfit?_word _).symm
      refine .bind (.emit hfits span) fun again _ hagain => .pure ?_
      subst hitem
      subst hagain
      rw [← show inner.byteSize = n from hinner, ← show test.byteSize = m from htest, SameSize,
        Fragment.byteSize_eq, toList_loop, itemsSize_loopItems, Fragment.byteSize_eq,
        Fragment.byteSize_eq]
  | .break span => .exit .break span
  | .continue span => .exit .continue span
  | .print _ value | .expr _ value => (compileExpr_tallies value).unary rfl
  | .delete _ object key => (compileExpr_tallies object).binary (compileExpr_tallies key) rfl

theorem compileStmts_tallies (inLoop : Bool) : ∀ (body : List Stmt) (code : Fragment),
    Tallies (compileStmts builtins inLoop body code) (surveyBody body) (AddsSize code)
  | [], code => .pure rfl
  | st :: rest, code =>
    .bind (compileStmt_tallies inLoop st) fun more n hmore =>
      (compileStmts_tallies inLoop rest (code ++ more)).mapRight fun code' m h => by
        rw [AddsSize, h, Fragment.byteSize_append, hmore]
        exact Nat.add_assoc _ _ _

end

/-- A whole chunk is surveyed as it is compiled. -/
theorem compileChunk_tallies (statements : List Stmt) (code : Fragment) :
    Tallies (compileChunk builtins statements code) (surveyChunk statements) (AddsSize code) := by
  fun_induction compileChunk builtins statements code with
  | case1 code => exact .pure (Fragment.byteSize_push code _)
  | case2 span value code =>
    refine (compileExpr_tallies value).bind fun more n hmore => .pure ?_
    rw [AddsSize, Fragment.byteSize_push, Fragment.byteSize_append, hmore]
    rfl
  | case3 st rest code hne ih =>
    rw [surveyChunk]
    · refine (compileStmt_tallies false st).bind fun more n hmore =>
        (ih more).mapRight fun code' m h => ?_
      rw [AddsSize, h, Fragment.byteSize_append, hmore]
      exact Nat.add_assoc _ _ _
    · exact hne

end

/-! ## Sessions -/

namespace Compiler

variable {c c' : Compiler} {p : Program} {range : CodeRange}

/-- The tables of the session are within their limits. -/
def Moderate (c : Compiler) : Prop := Matches c.state c.tables

theorem moderate_start (builtins : Array String) (firstId : Nat) :
    (start builtins firstId).Moderate := by
  refine ⟨rfl, rfl, rfl, Nat.zero_le _, Nat.zero_le _, fun scope hscope => ?_, List.cons_ne_nil _ _⟩
  obtain rfl := List.mem_singleton.1 hscope
  exact ⟨Nat.zero_le _, fun e he => absurd he (Array.not_mem_empty e)⟩

/-- A program that is compiled makes the demands of its survey, which all fit, and leaves the tables
of its survey. -/
theorem compile_tallies (hc : c.Sound) (hmoderate : c.Moderate)
    (h : c.compile p = .ok (range, c')) :
    range.stop = range.start + (c.survey p).value ∧ (c.survey p).tables = c'.tables ∧
      (c.survey p).demands.all Demand.fits = true ∧ c'.Moderate := by
  obtain ⟨-, -, -, rfl, -⟩ := compile_eq_ok h
  obtain ⟨fragment, row, plan, hchunk, -, -, -, hitems, -, hsize, -⟩ := compile_planned hc h
  obtain ⟨hbytes, hmatches, -, hfits⟩ := (compileChunk_tallies _ _).done hmoderate hchunk
  have hmatches : Matches c'.state (c.survey p).tables := hmatches
  have htables : (c.survey p).tables = c'.tables :=
    Tables.ext hmatches.constants hmatches.names hmatches.scopes
  rw [htables] at hmatches
  refine ⟨?_, htables, hfits, hmatches⟩
  have hvalue : (c.survey p).value = rowSize (row ++ [⟨.halt, []⟩]) := by
    have hbytes : fragment.byteSize = 0 + (c.survey p).value := hbytes
    rw [Nat.zero_add, Fragment.byteSize_eq, hitems] at hbytes
    rw [← hbytes, itemsSize, List.map_map]
    rfl
  rw [hvalue]
  exact hsize

/-- A program is refused for a limit only if one of its demands does not fit. -/
theorem compile_refused (hmoderate : c.Moderate) {e : CompileError} (h : c.compile p = .error e)
    (hlimit : e.fault.isLimit = true) : (c.survey p).demands.all Demand.fits = false := by
  unfold compile submit at h
  cases hchunk : compileChunk c.builtins p.statements #[] c.state with
  | error failed =>
    rw [hchunk] at h
    cases h
    exact (compileChunk_tallies _ _).refused hmoderate hchunk hlimit
  | ok found =>
    rw [hchunk] at h
    cases h

theorem moderate_after (hc : c.Sound) (hmoderate : c.Moderate) (programs : List Program) :
    (c.after programs).Moderate := by
  induction programs generalizing c with
  | nil => exact hmoderate
  | cons p rest ih =>
    rw [after]
    split
    · rename_i range c' hok
      obtain ⟨-, -, -, hmoderate'⟩ := compile_tallies hc hmoderate hok
      exact ih (compile_spec hc hok).1 hmoderate'
    · exact ih hc hmoderate

end Compiler

/-- The code of a program that has been read says what the program says, however large it is: every
operand is the one that was meant. What no operand can say is refused: a program that is compiled
has no demand that does not fit, and for a limit only a program with such a demand is refused. -/
theorem operands_never_wrap (builtins : Array String) (firstId : Nat) (earlier : List String)
    (source : String) (p : Program) (c : Compiler) (hread : parse source = .ok p)
    (hc : c = (Compiler.start builtins firstId).after
      (earlier.filterMap fun text => (parse text).toOption)) :
    (∀ range c', c.compile p = .ok (range, c') → p.LaidOut c'.main range ∧
      range.stop = range.start + (c.survey p).value ∧ (c.survey p).tables = c'.tables) ∧
    ((∃ d ∈ (c.survey p).demands, d.fits = false) → ∃ e, c.compile p = .error e) ∧
    (∀ e, c.compile p = .error e → e.fault.isLimit = true →
      ∃ d ∈ (c.survey p).demands, d.fits = false) := by
  have hsound := Compiler.sound_after (Compiler.sound_start builtins firstId)
    (earlier.filterMap fun text => (parse text).toOption)
  have hpools := Compiler.unsigned_after (c := Compiler.start builtins firstId)
    (fun x hx => absurd hx (Array.not_mem_empty _)) (filterMap_parse_unsigned earlier)
  have hmoderate := Compiler.moderate_after (Compiler.sound_start builtins firstId)
    (Compiler.moderate_start builtins firstId)
    (earlier.filterMap fun text => (parse text).toOption)
  rw [← hc] at hsound hpools hmoderate
  refine ⟨fun range c' h => ?_, fun ⟨d, hd, hfits⟩ => ?_, fun e h hlimit => ?_⟩
  · obtain ⟨hsize, htables, -⟩ := Compiler.compile_tallies hsound hmoderate h
    exact ⟨Compiler.compile_laidOut hsound hpools (parse_unsigned hread) h, hsize, htables⟩
  · cases h : c.compile p with
    | error e => exact ⟨e, rfl⟩
    | ok found =>
      obtain ⟨-, -, hall, -⟩ := Compiler.compile_tallies hsound hmoderate h
      rw [List.all_eq_true.1 hall d hd] at hfits
      cases hfits
  · have hsome := Compiler.compile_refused hmoderate h hlimit
    obtain ⟨d, hd, hfits⟩ := List.all_eq_false.1 hsome
    exact ⟨d, hd, Bool.eq_false_iff.2 hfits⟩

/-! ## A loop and a capture -/

/-- The code of a loop over the parameter of a function, which ends at once. -/
def loopsOnce : Fragment :=
  #[.op ⟨.jumpForward, [3]⟩, .op ⟨.jumpForward, [6]⟩, .op ⟨.loadFast, [0]⟩,
    .op ⟨.popJumpBackwardIfTrue, [9]⟩]

theorem compileStmt_loop (builtins : Std.HashSet String) (name param : String) (scopes : List Scope)
    (nextId : Nat) (a b c : Span) :
    compileStmt builtins false (.while a (.ident b param) [.break c])
        ⟨.empty, .withParameter name param :: scopes, nextId⟩ =
      .ok (loopsOnce, ⟨.empty, .withParameter name param :: scopes, nextId⟩) := by
  have htest : compileExpr builtins (.ident b param)
      ⟨.empty, .withParameter name param :: scopes, nextId⟩ =
        .ok (#[.op ⟨.loadFast, [0]⟩], ⟨.empty, .withParameter name param :: scopes, nextId⟩) := by
    rw [compileExpr]
    exact bind_eq_ok.2 ⟨.slot 0, _, resolve_eq_ok param (Scope.resolve_parameter name param scopes),
      rfl⟩
  have hbreak : compileStmts builtins true [.break c] #[]
      ⟨.empty, .withParameter name param :: scopes, nextId⟩ =
        .ok (#[.hole .break], ⟨.empty, .withParameter name param :: scopes, nextId⟩) := by
    rw [compileStmts]
    refine bind_pure_eq_ok.2 ⟨#[.hole .break], ?_, rfl⟩
    rw [compileStmt]
    rfl
  rw [compileStmt]
  exact bind_eq_ok.2 ⟨_, _, hbreak, bind_eq_ok.2 ⟨_, _, rfl, bind_eq_ok.2 ⟨_, _, htest,
    bind_pure_eq_ok.2 ⟨_, rfl, rfl⟩⟩⟩⟩

/-- A function whose body is such a loop, before its parameter is captured. -/
def loopAndCapture (a b c d e f g h : Span) : Stmt :=
  .funcDef a "f" ["x"] [.while b (.ident c "x") [.break d],
    .return e (some (.func f [] [.return g (some (.ident h "x"))]))]

theorem compile_loopAndCapture (a b c d e f g h : Span) :
    ∃ (c' : Compiler) (outer inner : Routine Value),
      (Compiler.start #[] 0).compile ⟨[loopAndCapture a b c d e f g h]⟩ =
        .ok (⟨0, c'.code.size⟩, c') ∧
      c'.main.names = #["f"] ∧ c'.main.constants = #[.function outer] ∧
      outer.constants = #[.function inner] ∧ inner.freeVariables = #[⟨"x", .slot 0⟩] := by
  let s : CompileState :=
    ⟨.empty, [{ Scope.topLevel "main" with declared := OrderedMap.empty.insert "f" () }], 0⟩
  have hdeclare : declare (Compiler.start #[] 0).builtins "f" a ⟨.empty, [.topLevel "main"], 0⟩ =
      .ok (.name "f", s) := by
    have hnone : (Compiler.start #[] 0).builtins.contains "f" = false := by
      rw [← Bool.not_eq_true, Compiler.contains_start]
      exact Array.not_mem_empty _
    refine bind_eq_ok.2 ⟨false, _, rfl, ?_⟩
    rw [hnone]
    rfl
  obtain ⟨inner, hfree, hreturn⟩ := compileStmt_capturing "f" "x" (Compiler.start #[] 0).builtins
    s.scopes 0 f g h e
  have hbody : compileStmts (Compiler.start #[] 0).builtins false
      [.while b (.ident c "x") [.break d],
        .return e (some (.func f [] [.return g (some (.ident h "x"))]))] #[]
      ⟨.empty, Scope.withParameter "f" "x" :: s.scopes, s.nextId⟩ =
        .ok (loopsOnce ++ returnsClosure, ⟨Pools.empty.addConstant (.function inner),
          Scope.withParameter "f" "x" :: s.scopes, 1⟩) := by
    rw [compileStmts]
    refine bind_eq_ok.2 ⟨_, _, compileStmt_loop _ "f" "x" s.scopes s.nextId b c d, ?_⟩
    rw [compileStmts]
    exact bind_pure_eq_ok.2 ⟨_, hreturn, rfl⟩
  obtain ⟨outer, houter, -, hconstants, -⟩ := compileFunction_withParameter (s := s) "f" "x"
    (Compiler.start #[] 0).builtins a hbody rfl
  have hstmt : compileStmt (Compiler.start #[] 0).builtins false (loopAndCapture a b c d e f g h)
      ⟨.empty, [.topLevel "main"], 0⟩ = .ok (#[.op ⟨.loadConst, [0]⟩, .op ⟨.storeName, [0]⟩],
        ⟨(Pools.empty.addConstant (.function outer)).addName "f", s.scopes, 2⟩) := by
    unfold loopAndCapture
    rw [compileStmt]
    refine bind_eq_ok.2 ⟨_, _, hdeclare, bind_eq_ok.2 ⟨_, _, houter, ?_⟩⟩
    refine bind_pure_eq_ok.2 ⟨.op ⟨.storeName, [0]⟩, ?_, rfl⟩
    exact bind_eq_ok.2 ⟨0, _, addName_first "f" a rfl, rfl⟩
  obtain ⟨c', hcompile, -, hconstants', hnames⟩ := Compiler.compile_first
    (p := ⟨[loopAndCapture a b c d e f g h]⟩) (Compiler.fresh_start #[] 0)
    (bind_eq_ok.2 ⟨_, _, hstmt, rfl⟩)
  exact ⟨c', outer, inner, hcompile, hnames.trans (keys_addName_first rfl "f"), hconstants',
    hconstants, hfree⟩

/-- The jumps of the loop, the name of the function, both functions as constants, and the parameter
as a slot, as a cell and as a captured variable are where they should be. -/
theorem operands_never_wrap_capture : ∃ p range c' outer inner,
    parse "func f(x) { while x { break }; return func() { return x } }" = .ok p ∧
      (Compiler.start #[] 0).compile p = .ok (range, c') ∧ c'.main.names = #["f"] ∧
      c'.main.constants = #[.function outer] ∧ outer.constants = #[.function inner] ∧
      inner.freeVariables = #[⟨"x", .slot 0⟩] ∧ p.LaidOut c'.main range := by
  obtain ⟨a, b, c, d, e, f, g, h, hread⟩ : ∃ a b c d e f g h,
      parse "func f(x) { while x { break }; return func() { return x } }" =
        .ok ⟨[loopAndCapture a b c d e f g h]⟩ := ⟨_, _, _, _, _, _, _, _, by cbv⟩
  obtain ⟨c', outer, inner, hcompile, hnames, hconstants, hinner, hfree⟩ :=
    compile_loopAndCapture a b c d e f g h
  obtain ⟨hcompiled, -⟩ := operands_never_wrap #[] 0 [] _ _ _ hread rfl
  exact ⟨_, _, c', outer, inner, hread, hcompile, hnames, hconstants, hinner, hfree,
    (hcompiled _ c' hcompile).1⟩

end Ember
