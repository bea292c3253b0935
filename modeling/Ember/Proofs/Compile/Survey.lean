import Mathlib.Data.List.Induction
import Ember.Proofs.Compile.Functions

/-! What a program needs of the things that instructions can only count or tell apart up to a limit.
A survey goes through the program as the compiler does, with tables that have no limits, and takes
down every demand: how many constants, names and variables there come to be in one piece of code,
how many variables a function captures, how long literals, lists of arguments and parameters and
jumps are. The survey is in step with a part of the compiler if they come to the same as long as all
demands fit. -/
namespace Ember
set_option autoImplicit false

open CompileM

/-! ## Demands -/

/-- How much a program needs of something. -/
inductive Demand
  /-- Constants of one piece of code. -/
  | constants (count : Nat)
  /-- Names of one piece of code. -/
  | names (count : Nat)
  /-- Variables of one function. -/
  | locals (count : Nat)
  /-- Variables that one function captures. -/
  | captures (count : Nat)
  /-- Elements of a literal. -/
  | elements (count : Nat)
  | arguments (count : Nat)
  | parameters (count : Nat)
  /-- Bytes that a jump passes. -/
  | jump (distance : Nat)

def Demand.fits : Demand → Bool
  | constants n | names n | locals n => n ≤ 65536
  | captures n | elements n | jump n => n ≤ 65535
  | arguments n | parameters n => n ≤ 255

/-! ## Surveys -/

/-- The tables of the piece of code that is surveyed and the scopes around it. Of a constant there
is its key, of a function nothing. -/
@[ext]
structure Tables where
  constants : List (Option ConstantKey)
  names : List String
  scopes : List Scope

/-- What a survey has found and demands, and the tables that it leaves. -/
structure Surveyed (α : Type) where
  value : α
  tables : Tables
  demands : List Demand

def Survey (α : Type) : Type := Tables → Surveyed α

/-- Declares a name as if there were a slot for every variable. -/
def Scope.widen (s : Scope) (name : String) : Symbol × Scope :=
  match s.kind with
  | .topLevel => (.name name, { s with declared := s.declared.insert name () })
  | .function =>
    match s.locals.position? name with
    | some slot => (.slot slot, s)
    | none => (.slot s.locals.size, { s with locals := s.locals.insert name () })

namespace Survey

instance : Monad Survey where
  pure a := fun t => ⟨a, t, []⟩
  bind x k := fun t =>
    let first := x t
    let second := k first.value first.tables
    { second with demands := first.demands ++ second.demands }

def need (d : Demand) : Survey Unit := fun t => ⟨(), t, [d]⟩

/-- A constant with a key is kept once. -/
def constant (key : Option ConstantKey) : Survey Unit := fun t =>
  if key ≠ none ∧ key ∈ t.constants then ⟨(), t, []⟩
  else ⟨(), { t with constants := t.constants ++ [key] }, [.constants (t.constants.length + 1)]⟩

def name (n : String) : Survey Unit := fun t =>
  if n ∈ t.names then ⟨(), t, []⟩
  else ⟨(), { t with names := t.names ++ [n] }, [.names (t.names.length + 1)]⟩

def resolve (n : String) : Survey Symbol := fun t =>
  let (symbol, scopes) := Scope.resolve n t.scopes
  ⟨symbol, { t with scopes }, []⟩

def declare (n : String) : Survey Symbol := fun t =>
  match t.scopes with
  | [] => ⟨.name n, t, []⟩
  | scope :: outer =>
    let (symbol, scope) := scope.widen n
    ⟨symbol, { t with scopes := scope :: outer }, [.locals scope.locals.size]⟩

/-- Where an assignment stores: at the top level it declares the name. -/
def target (n : String) : Survey Symbol := fun t =>
  if (t.scopes.head?.map Scope.isFunction).getD false then resolve n t else declare n t

/-- Access to a variable takes three bytes, and a name if it is one of the session. -/
def access : Symbol → Survey Nat
  | .slot _ | .free _ => return 3
  | .global n | .name n => do
    name n
    return 3

/-- The body of a function is a piece of code of its own; gives the number of variables that it
captures. -/
def within (n : String) (params : List String) (body : Survey Nat) : Survey Nat := fun t =>
  let scope := params.foldl (fun scope param => (scope.widen param).2) (Scope.function n)
  let inner := body ⟨[], [], scope :: t.scopes⟩
  ⟨(inner.tables.scopes.headD default).captured.size,
    { t with scopes := inner.tables.scopes.drop 1 }, inner.demands⟩

/-- A function that captures nothing is a constant; else a closure is made of cells. -/
def function (n : String) (params : List String) (body : Survey Nat) : Survey Nat := do
  need (.parameters params.length)
  let captured ← within n params body
  constant none
  need (.captures captured)
  return if captured = 0 then 3 else 4 * captured + 5

def literal (v : Value) : Survey Nat := do
  constant (ConstantKey.ofValue? v)
  return 3

end Survey

open Survey

mutual

/-- The bytes that the code of an expression takes, and what it demands. -/
def Expr.survey : Expr → Survey Nat
  | .int _ n => literal (.int n)
  | .float _ x => literal (.float x)
  | .str _ s => literal (.str s)
  | .bool .. | .nil _ => return 1
  | .ident _ n => do access (← Survey.resolve n)
  | .list _ items | .set _ items => do
    need (.elements items.length)
    return (← surveyItems items) + 3
  | .map _ entries => do
    need (.elements entries.length)
    return (← surveyEntries entries) + 3
  | .unary _ _ operand => do return (← operand.survey) + 1
  | .binary _ _ left right => do
    let first ← left.survey
    let second ← right.survey
    return first + second + 2
  | .logical _ _ left right => do
    let first ← left.survey
    let second ← right.survey
    need (.jump (second + 7))
    return first + 3 + second + 8
  | .call _ callee args => do
    need (.arguments args.length)
    let first ← callee.survey
    let rest ← surveyItems args
    return first + rest + 2
  | .index _ object key => do
    let first ← object.survey
    let second ← key.survey
    return first + second + 1
  | .attr _ object n => do
    let first ← object.survey
    Survey.name n
    return first + 3
  | .func _ params body => Survey.function anonymous params (surveyBody body)

def surveyItems : List Expr → Survey Nat
  | [] => return 0
  | e :: rest => do
    let first ← e.survey
    let more ← surveyItems rest
    return first + more

def surveyEntries : List (Expr × Expr) → Survey Nat
  | [] => return 0
  | (k, v) :: rest => do
    let first ← k.survey
    let second ← v.survey
    let more ← surveyEntries rest
    return first + second + more

def Stmt.survey : Stmt → Survey Nat
  | .var _ n (.func _ params body) => do
    let symbol ← Survey.declare n
    let size ← Survey.function n params (surveyBody body)
    return size + (← access symbol)
  | .var _ n value => do
    let size ← value.survey
    let symbol ← Survey.declare n
    return size + (← access symbol)
  | .assign _ (.ident _ n) (.func _ params body) => do
    let symbol ← target n
    let size ← Survey.function n params (surveyBody body)
    return size + (← access symbol)
  | .assign _ (.ident _ n) value => do
    let symbol ← target n
    let size ← value.survey
    return size + (← access symbol)
  | .assign _ (.index _ object key) value => do
    let first ← value.survey
    let second ← object.survey
    let third ← key.survey
    return first + second + third + 1
  | .assign _ (.attr _ object n) value => do
    let first ← value.survey
    let second ← object.survey
    Survey.name n
    return first + second + 3
  | .assign .. => return 0
  | .funcDef _ n params body => do
    let symbol ← Survey.declare n
    let size ← Survey.function n params (surveyBody body)
    return size + (← access symbol)
  | .return _ none => return 2
  | .return _ (some value) => do return (← value.survey) + 2
  | .if _ cond thenBody none => do
    let test ← cond.survey
    let first ← surveyBody thenBody
    need (.jump first)
    return test + 3 + first
  | .if _ cond thenBody (some elseBody) => do
    let test ← cond.survey
    let first ← surveyBody thenBody
    need (.jump (first + 3))
    let second ← surveyBody elseBody
    need (.jump second)
    return test + 3 + first + 3 + second
  | .while _ cond body => do
    let inner ← surveyBody body
    need (.jump inner)
    let test ← cond.survey
    -- from the end of the loop back to its body
    need (.jump (inner + (test + 3)))
    return 3 + inner + test + 3
  | .break _ | .continue _ => return 3
  | .print _ value | .expr _ value => do return (← value.survey) + 1
  | .delete _ object key => do
    let first ← object.survey
    let second ← key.survey
    return first + second + 1

def surveyBody : List Stmt → Survey Nat
  | [] => return 0
  | st :: rest => do
    let first ← st.survey
    let more ← surveyBody rest
    return first + more

end

def surveyChunk : List Stmt → Survey Nat
  | [] => return 1
  | [.expr _ value] => do return (← value.survey) + 1
  | st :: rest => do
    let first ← st.survey
    let more ← surveyChunk rest
    return first + more

/-- The tables of a session. -/
def Compiler.tables (c : Compiler) : Tables :=
  ⟨c.pools.constants.toList.map ConstantKey.ofValue?, c.pools.names.keys.toList, [c.scope]⟩

/-- The survey of a program that is added to what has been compiled. -/
def Compiler.survey (c : Compiler) (p : Program) : Surveyed Nat := surveyChunk p.statements c.tables

/-! ## Surveys in step with the compiler -/

/-- The program is refused because something does not fit. -/
def CompileFault.isLimit : CompileFault → Bool
  | .operandTooLarge .. | .jumpTooLarge | .tooMany .. => true
  | _ => false

/-- The symbol can be an operand. -/
def Symbol.Small : Symbol → Prop
  | .slot i | .free i => i < Scope.slotLimit
  | .global _ | .name _ => True

/-- Slots and captured variables of the scope can be operands. -/
structure Scope.Small (s : Scope) : Prop where
  locals : s.locals.size ≤ slotLimit
  captured : ∀ e ∈ s.captured.entries, e.2.index < slotLimit

/-- The survey has the tables of the compiler, which are within their limits. -/
structure Matches (s : CompileState) (t : Tables) : Prop where
  constants : t.constants = s.pools.constants.toList.map ConstantKey.ofValue?
  names : t.names = s.pools.names.keys.toList
  scopes : t.scopes = s.scopes
  constants_le : s.pools.constants.size ≤ poolLimit
  names_le : s.pools.names.size ≤ poolLimit
  small : ∀ scope ∈ s.scopes, scope.Small
  nonempty : s.scopes ≠ []

/-- The survey is in step with a part of the compiler: where that succeeds, both come to the same
and all demands fit; where it refuses the program for a limit, some demand does not. -/
structure Tallies {α β : Type} (x : CompileM α) (y : Survey β) (R : α → β → Prop) : Prop where
  done : ∀ ⦃s s' : CompileState⦄ ⦃t : Tables⦄ ⦃a : α⦄, Matches s t → x s = .ok (a, s') →
    R a (y t).value ∧ Matches s' (y t).tables ∧ s'.scopes.length = s.scopes.length ∧
      (y t).demands.all Demand.fits = true
  refused : ∀ ⦃s s' : CompileState⦄ ⦃t : Tables⦄ ⦃e : CompileError⦄, Matches s t →
    x s = .error (e, s') → e.fault.isLimit = true → (y t).demands.all Demand.fits = false

namespace Tallies

section
variable {α β γ δ : Type} {x : CompileM α} {y : Survey β} {R : α → β → Prop}

theorem pure {a : α} {b : β} (h : R a b) : Tallies (pure a) (pure b) R := by
  refine ⟨fun s s' t a' hm hx => ?_, fun s s' t e hm hx => ?_⟩
  · obtain ⟨rfl, rfl⟩ := pure_eq_ok.1 hx
    exact ⟨h, hm, rfl, rfl⟩
  · cases hx

theorem fail {fault : CompileFault} (h : fault.isLimit = false) (span : Span) :
    Tallies (fail fault span) y R := by
  refine ⟨fun s s' t a hm hx => absurd hx fail_ne_ok, fun s s' t e hm hx hlimit => ?_⟩
  cases hx
  rw [h] at hlimit
  cases hlimit

theorem bind {k : α → CompileM γ} {l : β → Survey δ} {Q : γ → δ → Prop} (hx : Tallies x y R)
    (hk : ∀ a b, R a b → Tallies (k a) (l b) Q) : Tallies (x >>= k) (y >>= l) Q := by
  have hall : ∀ t, ((y >>= l) t).demands.all Demand.fits =
      ((y t).demands.all Demand.fits && (l (y t).value (y t).tables).demands.all Demand.fits) :=
    fun t => List.all_append
  refine ⟨fun s s' t c hm h => ?_, fun s s' t e hm h hlimit => ?_⟩
  · obtain ⟨a, s₁, ha, hb⟩ := bind_eq_ok.1 h
    obtain ⟨hr, hm₁, hlength, hfits⟩ := hx.done hm ha
    obtain ⟨hq, hm', hlength', hfits'⟩ := (hk a _ hr).done hm₁ hb
    exact ⟨hq, hm', hlength'.trans hlength, by rw [hall, hfits, hfits']; rfl⟩
  · change (x s >>= fun p => k p.1 p.2) = .error (e, s') at h
    rw [hall]
    cases hs : x s with
    | error failed =>
      rw [hs] at h
      cases h
      rw [hx.refused hm hs hlimit, Bool.false_and]
    | ok found =>
      rw [hs] at h
      obtain ⟨hr, hm₁, -⟩ := hx.done hm hs
      rw [(hk _ _ hr).refused hm₁ h hlimit, Bool.and_false]

/-- What the survey comes to is changed. -/
theorem mapRight {Q : α → γ → Prop} {f : β → γ} (hx : Tallies x y R)
    (h : ∀ a b, R a b → Q a (f b)) : Tallies x (do return f (← y)) Q := by
  rw [← bind_pure x]
  exact hx.bind fun a b hr => .pure (h a b hr)

/-- What the compiler comes to is changed. -/
theorem mapLeft {Q : γ → β → Prop} {f : α → γ} (hx : Tallies x y R)
    (h : ∀ a b, R a b → Q (f a) b) : Tallies (do return f (← x)) y Q := by
  refine ⟨fun s s' t c hm hs => ?_, fun s s' t e hm hs hlimit => ?_⟩
  · obtain ⟨a, ha, rfl⟩ := bind_pure_eq_ok.1 hs
    obtain ⟨hr, hrest⟩ := hx.done hm ha
    exact ⟨h a _ hr, hrest⟩
  · change (x s >>= fun p => Except.ok (f p.1, p.2)) = .error (e, s') at hs
    cases hfound : x s with
    | ok found =>
      rw [hfound] at hs
      cases hs
    | error failed =>
      rw [hfound] at hs
      cases hs
      exact hx.refused hm hfound hlimit

/-- A demand that fits changes nothing. -/
theorem noted {d : Demand} (hd : d.fits = true) (hx : Tallies x y R) :
    Tallies x (do need d; y) R := by
  have hall : ∀ t, ((do need d; y : Survey β) t).demands.all Demand.fits =
      (y t).demands.all Demand.fits := by
    intro t
    change (d :: (y t).demands).all Demand.fits = _
    rw [List.all_cons, hd, Bool.true_and]
  refine ⟨fun s s' t a hm h => ?_, fun s s' t e hm h hlimit => ?_⟩
  · rw [hall]
    exact hx.done hm h
  · rw [hall]
    exact hx.refused hm h hlimit

/-- It is enough to look at one state at a time. -/
theorem of_state (h : ∀ s t, Matches s t → ∃ (x' : CompileM α) (y' : Survey β), x s = x' s ∧
    y t = y' t ∧ Tallies x' y' R) : Tallies x y R := by
  refine ⟨fun s s' t a hm hx => ?_, fun s s' t e hm hx hlimit => ?_⟩
  · obtain ⟨x', y', hxs, hyt, htallies⟩ := h s t hm
    rw [hyt]
    exact htallies.done hm (hxs ▸ hx)
  · obtain ⟨x', y', hxs, hyt, htallies⟩ := h s t hm
    rw [hyt]
    exact htallies.refused hm (hxs ▸ hx) hlimit

end

/-! ## Counts and instructions -/

theorem checkCount {count limit : Nat} {d : Demand} (h : d.fits = decide (count ≤ limit))
    (what : String) (span : Span) :
    Tallies (checkCount count what limit span) (need d) (fun _ _ => count ≤ limit) := by
  unfold Ember.checkCount
  refine ⟨fun s s' t u hm hx => ?_, fun s s' t e hm hx _ => ?_⟩
  · split at hx
    · rename_i hle
      cases hx
      exact ⟨hle, hm, rfl, by simp [need, h, hle]⟩
    · cases hx
  · split at hx
    · cases hx
    · rename_i hgt
      simp [need, h, hgt]

/-- An instruction whose operands fit if a demand does. -/
theorem emit {op : Opcode} {operands : List Nat} {d : Demand}
    (h : d.fits = (misfit? operands op.widths).isNone) (span : Span) :
    Tallies (emit op operands span) (need d) (fun item _ => item = .op ⟨op, operands⟩) := by
  unfold CompileM.emit
  cases hfit : misfit? operands op.widths with
  | some found =>
    refine ⟨fun s s' t item hm hx => absurd hx fail_ne_ok, fun s s' t e hm hx _ => ?_⟩
    simp [need, h, hfit]
  | none =>
    refine ⟨fun s s' t item hm hx => ?_, fun s s' t e hm hx _ => ?_⟩
    · cases hx
      exact ⟨rfl, hm, rfl, by simp [need, h, hfit]⟩
    · cases hx

theorem emitJump (op : Opcode) (distance : Nat) (span : Span) :
    Tallies (emitJump op distance span) (need (.jump distance))
      (fun item _ => item = jumpOver op distance) := by
  unfold CompileM.emitJump
  refine ⟨fun s s' t item hm hx => ?_, fun s s' t e hm hx _ => ?_⟩
  · split at hx
    · rename_i hle
      cases hx
      exact ⟨rfl, hm, rfl, by simpa [need, Demand.fits, maxJump] using hle⟩
    · cases hx
  · split at hx
    · cases hx
    · rename_i hgt
      simpa [need, Demand.fits, maxJump] using hgt

end Tallies

theorem emit_of_fits {op : Opcode} {operands : List Nat}
    (h : misfit? operands op.widths = none) (span : Span) :
    CompileM.emit op operands span = pure (.op ⟨op, operands⟩) := by
  unfold CompileM.emit
  rw [h]

theorem misfit?_single {i width : Nat} (h : i < Nat.pow 256 width) :
    misfit? [i] [width] = none := by
  rw [misfit?, if_pos h]
  rfl

/-- Whether an operand of two bytes fits. -/
theorem isNone_misfit?_word (n : Nat) : (misfit? [n] [2]).isNone = decide (n ≤ 65535) := by
  by_cases hlt : n < Nat.pow 256 2
  · rw [misfit?_single hlt]
    exact (decide_eq_true (Nat.le_of_lt_succ hlt)).symm
  · rw [misfit?, if_neg hlt]
    exact (decide_eq_false fun hle => hlt (Nat.lt_succ_of_le hle)).symm

/-! ## Constants and names -/

/-- A key is known exactly if a constant has it, and then by a place in the table. -/
theorem getElem?_knownAmong (constants : List Value) (key : ConstantKey) :
    (∀ i, (knownAmong constants)[key]? = some i → i < constants.length) ∧
      ((knownAmong constants)[key]?.isSome = true ↔
        some key ∈ constants.map ConstantKey.ofValue?) := by
  induction constants using List.reverseRecOn with
  | nil => simp [knownAmong]
  | append_singleton constants v ih =>
    rw [knownAmong_concat, List.length_append, List.map_append, List.mem_append]
    cases hkey : ConstantKey.ofValue? v with
    | none =>
      refine ⟨fun i hi => Nat.lt_succ_of_lt (ih.1 i hi), ?_⟩
      rw [ih.2]
      simp [hkey]
    | some key' =>
      dsimp only
      rw [Std.HashMap.getElem?_insert]
      by_cases heq : key' = key
      · simp [heq, hkey]
      · rw [if_neg (by simpa using heq)]
        refine ⟨fun i hi => Nat.lt_succ_of_lt (ih.1 i hi), ?_⟩
        rw [ih.2]
        simp [hkey, Ne.symm heq]

namespace Tallies

theorem addConstant (v : Value) (span : Span) :
    Tallies (addConstant v span) (constant (ConstantKey.ofValue? v))
      (fun i _ => i < poolLimit) := by
  have hknown : ∀ {s t}, Matches s t → ∀ i,
      ((ConstantKey.ofValue? v).bind fun key => s.pools.known[key]?) = some i →
      i < s.pools.constants.size ∧
        (ConstantKey.ofValue? v ≠ none ∧ ConstantKey.ofValue? v ∈ t.constants) := by
    intro s t hm i hi
    obtain ⟨key, hkey, hfound⟩ := Option.bind_eq_some_iff.1 hi
    rw [s.pools.indexed] at hfound
    obtain ⟨hlt, hiff⟩ := getElem?_knownAmong s.pools.constants.toList key
    rw [hkey, hm.constants]
    exact ⟨hlt i hfound, nofun, hiff.1 (by rw [hfound]; rfl)⟩
  have hnew : ∀ {s t}, Matches s t →
      ((ConstantKey.ofValue? v).bind fun key => s.pools.known[key]?) = none →
      ¬ (ConstantKey.ofValue? v ≠ none ∧ ConstantKey.ofValue? v ∈ t.constants) := by
    rintro s t hm hnone ⟨hkey, hmem⟩
    obtain ⟨key, hkey⟩ := Option.ne_none_iff_exists'.1 hkey
    rw [hkey, hm.constants, ← (getElem?_knownAmong s.pools.constants.toList key).2,
      ← s.pools.indexed] at hmem
    rw [hkey] at hnone
    rw [show s.pools.known[key]? = none from hnone] at hmem
    cases hmem
  refine ⟨fun s s' t i hm hx => ?_, fun s s' t e hm hx _ => ?_⟩
  · rw [addConstant_eq] at hx
    split at hx
    · rename_i j hj
      cases hx
      obtain ⟨hlt, hmem⟩ := hknown hm _ hj
      rw [Survey.constant, if_pos hmem]
      exact ⟨Nat.lt_of_lt_of_le hlt hm.constants_le, hm, rfl, rfl⟩
    · rename_i hnone
      split at hx
      · rename_i hlt
        cases hx
        have hlength : t.constants.length = s.pools.constants.size := by rw [hm.constants]; simp
        rw [Survey.constant, if_neg (hnew hm hnone), hlength]
        refine ⟨hlt, ⟨?_, hm.names, hm.scopes, ?_, hm.names_le, hm.small, hm.nonempty⟩, rfl, ?_⟩
        · change t.constants ++ [_] = (s.pools.constants.push v).toList.map _
          rw [hm.constants, Array.toList_push, List.map_append]
          rfl
        · change (s.pools.constants.push v).size ≤ poolLimit
          rw [Array.size_push]
          exact hlt
        · simp only [Demand.fits, poolLimit, List.all_cons, List.all_nil, Bool.and_true,
            decide_eq_true_eq] at hlt ⊢
          omega
      · cases hx
  · rw [addConstant_eq] at hx
    split at hx
    · cases hx
    · rename_i hnone
      split at hx
      · cases hx
      · rename_i hge
        have hlength : t.constants.length = s.pools.constants.size := by rw [hm.constants]; simp
        rw [Survey.constant, if_neg (hnew hm hnone), hlength]
        simp only [Demand.fits, poolLimit, List.all_cons, List.all_nil, Bool.and_true,
          decide_eq_false_iff_not] at hge ⊢
        omega

theorem addName (n : String) (span : Span) :
    Tallies (addName n span) (Survey.name n) (fun i _ => i < poolLimit) := by
  have hlength : ∀ {s t}, Matches s t → t.names.length = s.pools.names.size := by
    intro s t hm
    rw [hm.names, Array.length_toList, OrderedMap.size_keys]
  have hmem : ∀ {s t}, Matches s t → (n ∈ t.names ↔ n ∈ s.pools.names.keys) := by
    intro s t hm
    rw [hm.names, Array.mem_toList_iff]
  refine ⟨fun s s' t i hm hx => ?_, fun s s' t e hm hx _ => ?_⟩
  · rw [addName_eq] at hx
    split at hx
    · rename_i j hj
      cases hx
      have hknown : n ∈ t.names :=
        (hmem hm).2 (Array.mem_of_getElem? (OrderedMap.position?_eq_some_iff.1 hj))
      rw [Survey.name, if_pos hknown]
      exact ⟨Nat.lt_of_lt_of_le (OrderedMap.position?_lt hj) hm.names_le, hm, rfl, rfl⟩
    · rename_i hnone
      split at hx
      · rename_i hlt
        cases hx
        have hnew : n ∉ t.names := fun h =>
          OrderedMap.position?_eq_none_iff.1 hnone ((hmem hm).1 h)
        rw [Survey.name, if_neg hnew, hlength hm]
        refine ⟨hlt, ⟨hm.constants, ?_, hm.scopes, hm.constants_le, ?_, hm.small, hm.nonempty⟩, rfl,
          ?_⟩
        · change t.names ++ [n] = (s.pools.names.insert n ()).keys.toList
          rw [hm.names, OrderedMap.keys_insert_of_none hnone, Array.toList_push]
        · change (s.pools.names.insert n ()).size ≤ poolLimit
          rw [OrderedMap.size_insert_of_none hnone]
          exact hlt
        · simp only [Demand.fits, poolLimit, List.all_cons, List.all_nil, Bool.and_true,
            decide_eq_true_eq] at hlt ⊢
          omega
      · cases hx
  · rw [addName_eq] at hx
    split at hx
    · cases hx
    · rename_i hnone
      split at hx
      · cases hx
      · rename_i hge
        have hnew : n ∉ t.names := fun h =>
          OrderedMap.position?_eq_none_iff.1 hnone ((hmem hm).1 h)
        rw [Survey.name, if_neg hnew, hlength hm]
        simp only [Demand.fits, poolLimit, List.all_cons, List.all_nil, Bool.and_true,
          decide_eq_false_iff_not] at hge ⊢
        omega

end Tallies

/-! ## Variables -/

namespace Scope

theorem Small.capture {s : Scope} (hs : s.Small) (name : String) (source : Capture)
    (hsource : source.index < slotLimit) :
    (s.capture name source).1.Small ∧ (s.capture name source).2.Small := by
  refine ⟨Nat.mod_lt _ (by decide), hs.locals, fun e he => ?_⟩
  rcases OrderedMap.mem_entries_insert he with he | rfl
  · exact hs.captured e he
  · exact hsource

/-- Resolving a name gives a symbol that can be an operand. -/
theorem resolve_small (name : String) {scopes : List Scope} (h : ∀ s ∈ scopes, s.Small) :
    (resolve name scopes).1.Small ∧ (∀ s ∈ (resolve name scopes).2, s.Small) ∧
      (resolve name scopes).2.length = scopes.length := by
  induction scopes with
  | nil => exact ⟨trivial, h, rfl⟩
  | cons s outer ih =>
    obtain ⟨hs, houter⟩ := List.forall_mem_cons.1 h
    obtain ⟨hsymbol, hscopes, hlength⟩ := ih houter
    rw [resolve]
    split
    · exact ⟨trivial, h, rfl⟩
    · split
      · rename_i slot hslot
        exact ⟨Nat.lt_of_lt_of_le (OrderedMap.position?_lt hslot) hs.locals, h, rfl⟩
      · split
        · exact ⟨Nat.mod_lt _ (by decide), h, rfl⟩
        · split
          · split
            · rename_i i outer' heq
              rw [heq] at hsymbol hscopes hlength
              obtain ⟨hnew, hs'⟩ := hs.capture name (.slot i) hsymbol
              exact ⟨hnew, List.forall_mem_cons.2 ⟨hs', hscopes⟩, congrArg (· + 1) hlength⟩
            · rename_i i outer' heq
              rw [heq] at hsymbol hscopes hlength
              obtain ⟨hnew, hs'⟩ := hs.capture name (.free i) hsymbol
              exact ⟨hnew, List.forall_mem_cons.2 ⟨hs', hscopes⟩, congrArg (· + 1) hlength⟩
            · rename_i symbol outer' _ _ heq
              rw [heq] at hscopes hlength
              exact ⟨trivial, List.forall_mem_cons.2 ⟨hs, hscopes⟩, congrArg (· + 1) hlength⟩
          · exact ⟨trivial, h, rfl⟩

/-- There is a slot for a variable as long as there are not too many. -/
theorem declare_eq {s : Scope} (hs : s.Small) (name : String) :
    ((s.widen name).2.locals.size ≤ slotLimit ∧
        s.declare name = (some (s.widen name).1, (s.widen name).2) ∧
        (s.widen name).1.Small ∧ (s.widen name).2.Small) ∨
      (slotLimit < (s.widen name).2.locals.size ∧ (s.declare name).1 = none) := by
  unfold declare widen
  cases hkind : s.kind with
  | topLevel => exact .inl ⟨hs.locals, rfl, trivial, hs.locals, hs.captured⟩
  | function =>
    cases hfound : s.locals.position? name with
    | some slot =>
      exact .inl ⟨hs.locals, rfl, Nat.lt_of_lt_of_le (OrderedMap.position?_lt hfound) hs.locals, hs⟩
    | none =>
      have hsize : (s.locals.insert name ()).size = s.locals.size + 1 :=
        OrderedMap.size_insert_of_none hfound ()
      dsimp only
      rw [hsize]
      by_cases hlt : s.locals.size < slotLimit
      · rw [if_pos hlt]
        exact .inl ⟨hlt, rfl, hlt, by rw [hsize]; exact hlt, hs.captured⟩
      · rw [if_neg hlt]
        exact .inr ⟨by omega, rfl⟩

end Scope

namespace Tallies

/-- The symbol is the same, and can be an operand. -/
def SameSymbol (a b : Symbol) : Prop := a = b ∧ a.Small

theorem resolve (n : String) :
    Tallies (CompileM.resolve n) (Survey.resolve n) SameSymbol := by
  refine ⟨fun s s' t symbol hm hx => ?_, fun s s' t e hm hx _ => ?_⟩
  · cases hx
    obtain ⟨hsymbol, hscopes, hlength⟩ := Scope.resolve_small n hm.small
    have hnonempty : (Scope.resolve n s.scopes).2 ≠ [] := by
      intro hnil
      rw [hnil] at hlength
      exact hm.nonempty (List.length_eq_zero_iff.1 hlength.symm)
    unfold Survey.resolve
    rw [hm.scopes]
    exact ⟨⟨rfl, hsymbol⟩, ⟨hm.constants, hm.names, rfl, hm.constants_le, hm.names_le, hscopes,
      hnonempty⟩, hlength, rfl⟩
  · cases hx

theorem declareHere (n : String) (span : Span) :
    Tallies (CompileM.declareHere n span) (Survey.declare n) SameSymbol := by
  refine ⟨fun s s' t symbol hm hx => ?_, fun s s' t e hm hx _ => ?_⟩
  all_goals
    obtain ⟨pools, scopes, nextId⟩ := s
    obtain ⟨scope, outer, rfl⟩ := List.exists_cons_of_ne_nil hm.nonempty
    obtain ⟨hscope, houter⟩ := List.forall_mem_cons.1 hm.small
    have hscopes : t.scopes = scope :: outer := hm.scopes
    rw [Survey.declare, hscopes]
    unfold CompileM.declareHere at hx
    dsimp only at hx ⊢
  · rcases Scope.declare_eq hscope n with ⟨hle, hdeclare, hsymbol, hsmall⟩ | ⟨-, hnone⟩
    · rw [hdeclare] at hx
      cases hx
      exact ⟨⟨rfl, hsymbol⟩, ⟨hm.constants, hm.names, rfl, hm.constants_le, hm.names_le,
        List.forall_mem_cons.2 ⟨hsmall, houter⟩, List.cons_ne_nil _ _⟩, rfl,
        by simpa [Demand.fits, Scope.slotLimit] using hle⟩
    · split at hx
      · rename_i heq
        rw [heq] at hnone
        cases hnone
      · cases hx
  · rcases Scope.declare_eq hscope n with ⟨-, hdeclare, -⟩ | ⟨hlt, -⟩
    · rw [hdeclare] at hx
      cases hx
    · simpa [Demand.fits, Scope.slotLimit] using hlt

theorem declare (builtins : Std.HashSet String) (n : String) (span : Span) :
    Tallies (declare builtins n span) (Survey.declare n) SameSymbol := by
  refine .of_state fun s t hm => ?_
  by_cases hbuiltin :
      (!(s.scopes.head?.map Scope.isFunction).getD false && builtins.contains n) = true
  · refine ⟨CompileM.fail (.assignToBuiltin n) span, Survey.declare n, ?_, rfl, .fail rfl span⟩
    exact congrFun (if_pos hbuiltin) s
  · exact ⟨CompileM.declareHere n span, Survey.declare n, congrFun (if_neg hbuiltin) s, rfl,
      declareHere n span⟩

/-- What a function assigns to, once the name has been resolved. -/
def targetOf (builtins : Std.HashSet String) (span : Span) : Symbol → CompileM Symbol
  | .global name => do
    if ← isTopLevelName name then Pure.pure (.global name)
    else if builtins.contains name then CompileM.fail (.assignToBuiltin name) span
    else CompileM.fail (.undeclaredAssignment name) span
  | symbol => Pure.pure symbol

/-- A function assigns only to names of the session that have been declared. -/
theorem assignmentTarget (builtins : Std.HashSet String) (n : String) (span : Span) :
    Tallies (assignmentTarget builtins n span) (target n) SameSymbol := by
  refine .of_state fun s t hm => ?_
  cases hinside : (s.scopes.head?.map Scope.isFunction).getD false with
  | false =>
    refine ⟨Ember.declare builtins n span, Survey.declare n, ?_, ?_, declare builtins n span⟩
    · exact congrFun (if_pos (by rw [hinside]; rfl)) s
    · rw [target, hm.scopes, hinside]
      rfl
  | true =>
    refine ⟨CompileM.resolve n >>= targetOf builtins span, Survey.resolve n >>= Pure.pure,
      ?_, ?_, ?_⟩
    · exact congrFun (if_neg (by rw [hinside]; decide)) s
    · rw [target, hm.scopes, hinside]
      rfl
    · refine (resolve n).bind fun symbol symbol' hsymbol => ?_
      cases symbol with
      | global name =>
        refine .of_state fun s t hm => ?_
        by_cases htop : (s.scopes.getLast?.map (·.isDeclared name)).getD false = true
        · exact ⟨Pure.pure (.global name), Pure.pure symbol', congrFun (if_pos htop) s, rfl,
            .pure hsymbol⟩
        · refine ⟨_, Pure.pure symbol', congrFun (if_neg htop) s, rfl, ?_⟩
          split
          · exact .fail rfl span
          · exact .fail rfl span
      | _ => exact .pure hsymbol

theorem accessSymbol {slot free global top : Opcode} (hslot : slot.widths = [2])
    (hfree : free.widths = [2]) (hglobal : global.widths = [2]) (htop : top.widths = [2])
    {symbol : Symbol} (h : symbol.Small) (span : Span) :
    Tallies (accessSymbol slot free global top symbol span) (access symbol)
      (fun item n => item.size = n) := by
  have hsize : ∀ {op : Opcode} (i : Nat), op.widths = [2] → Item.size (.op ⟨op, [i]⟩) = 3 := by
    intro op i hop
    rw [Item.size, Instruction.size, Opcode.size, hop]
    rfl
  have hnamed : ∀ {op : Opcode} (n : String), op.widths = [2] →
      Tallies (do CompileM.emit op [← CompileM.addName n span] span) (do Survey.name n; return 3)
        (fun item n => item.size = n) := by
    intro op n hop
    refine (addName n span).bind fun i _ hi => ?_
    rw [emit_of_fits (by rw [hop]; exact misfit?_single hi)]
    exact .pure (hsize i hop)
  cases symbol with
  | slot i =>
    rw [Ember.accessSymbol, emit_of_fits (by rw [hslot]; exact misfit?_single h)]
    exact .pure (hsize i hslot)
  | free i =>
    rw [Ember.accessSymbol, emit_of_fits (by rw [hfree]; exact misfit?_single h)]
    exact .pure (hsize i hfree)
  | global n => exact hnamed n hglobal
  | name n => exact hnamed n htop

end Tallies

end Ember
