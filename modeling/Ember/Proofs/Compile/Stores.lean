import Ember.Proofs.Compile.Rollback
import Ember.Proofs.Machine.Stores

/-! Compiled code stores only to names that have been declared at the top level, in the program or
in one before it, and the name of a builtin is never declared there. What is asserted of the code
that has been compiled so far stays true while the tables grow, so assertions can be carried along
from one part of the compiler to the next. -/
namespace Ember
set_option autoImplicit false

open CompileM

/-! ## Declared names -/

/-- The name has been declared at the top level. -/
def CompileState.Declares (s : CompileState) (name : String) : Prop :=
  ∃ scope ∈ s.scopes, scope.kind = .topLevel ∧ scope.declared.contains name = true

theorem Scope.Appended.declares {a b : Scope} (h : a.Appended b) {name : String}
    (hname : a.declared.contains name = true) : b.declared.contains name = true := by
  rw [OrderedMap.contains_iff_mem_keys] at hname ⊢
  obtain ⟨e, he, rfl⟩ := Array.mem_map.1 hname
  exact Array.mem_map_of_mem (Array.mem_toList_iff.1
    (h.declared.subset (Array.mem_toList_iff.2 he)))

theorem Appended.declares {s s' : CompileState} (h : Appended s s') {name : String}
    (hname : s.Declares name) : s'.Declares name := by
  obtain ⟨scope, hscope, hkind, hdeclared⟩ := hname
  obtain ⟨i, hi⟩ := List.mem_iff_getElem?.1 hscope
  obtain ⟨hlength, hall⟩ := List.forall₂_iff_get.1 h.scopes
  obtain ⟨hlt, hget⟩ := List.getElem?_eq_some_iff.1 hi
  have happended := hall i hlt (hlength ▸ hlt)
  rw [List.get_eq_getElem, hget] at happended
  exact ⟨_, List.get_mem _ _, happended.kind.trans hkind, happended.declares hdeclared⟩

/-- Resolving a name changes functions only. -/
theorem Scope.mem_of_mem_resolve (name : String) {scopes : List Scope} {scope : Scope}
    (h : scope ∈ (Scope.resolve name scopes).2) (hkind : scope.kind = .topLevel) :
    scope ∈ scopes := by
  induction scopes with
  | nil => exact h
  | cons s outer ih =>
    have hinner : ∀ (s' : Scope) (outer' : List Scope), s'.kind = .function →
        scope ∈ s' :: outer' → (Scope.resolve name outer).2 = outer' → scope ∈ s :: outer := by
      intro s' outer' hfunction hmem houter
      rcases List.mem_cons.1 hmem with rfl | hmem
      · cases hkind.symm.trans hfunction
      · exact List.mem_cons_of_mem _ (ih (houter ▸ hmem))
    rw [Scope.resolve] at h
    split at h
    · exact h
    · rename_i hfunction
      split at h
      · exact h
      · split at h
        · exact h
        · split at h
          · split at h
            · rename_i i outer' hresolve
              exact hinner (s.capture name (.slot i)).2 outer' hfunction h
                (congrArg Prod.snd hresolve)
            · rename_i i outer' hresolve
              exact hinner (s.capture name (.free i)).2 outer' hfunction h
                (congrArg Prod.snd hresolve)
            · rename_i outer' _ _ hresolve
              exact hinner s outer' hfunction h (congrArg Prod.snd hresolve)
          · exact h

theorem declareHere_eq_ok {s s' : CompileState} {name : String} {span : Span} {symbol : Symbol}
    (h : declareHere name span s = .ok (symbol, s')) :
    ∃ scope outer scope', s.scopes = scope :: outer ∧ scope.declare name = (some symbol, scope') ∧
      s' = { s with scopes := scope' :: outer } := by
  obtain ⟨pools, scopes, nextId⟩ := s
  cases scopes with
  | nil => cases h
  | cons scope outer =>
    unfold declareHere at h
    dsimp only at h
    split at h
    · rename_i symbol' scope' hdeclare
      cases h
      exact ⟨scope, outer, scope', rfl, hdeclare, rfl⟩
    · cases h

/-- The last scope is the top level. -/
theorem declares_of_getLast {s : CompileState} (hs : Ready s) {name : String}
    (h : (s.scopes.getLast?.map (·.isDeclared name)).getD false = true) : s.Declares name := by
  have hlast : ∀ {scopes : List Scope}, Scope.Nested scopes →
      ∃ scope, scopes.getLast? = some scope ∧ scope.kind = .topLevel := by
    intro scopes hnested
    induction hnested with
    | top hkind => exact ⟨_, rfl, hkind⟩
    | function _ _ _ ih =>
      obtain ⟨scope, hscope, hkind⟩ := ih
      exact ⟨scope, by rw [List.getLast?_cons_cons, hscope], hkind⟩
  obtain ⟨scope, hscope, hkind⟩ := hlast hs.nested
  rw [hscope] at h
  refine ⟨scope, List.mem_of_getLast? hscope, hkind, ?_⟩
  change scope.isDeclared name = true at h
  rwa [Scope.isDeclared, hkind] at h

/-! ## States -/

/-- No builtin has been declared, and the functions that have been compiled store to declared names
only. -/
structure Careful (builtins : Std.HashSet String) (s : CompileState) : Prop where
  ready : Ready s
  free : ∀ name, s.Declares name → builtins.contains name = false
  tame : ∀ g, Value.function g ∈ s.pools.constants → Tame s.Declares g

section
variable {builtins : Std.HashSet String} {s s' : CompileState}

theorem Careful.next (hs : Careful builtins s) (hready : Ready s') (happended : Appended s s')
    (hfree : ∀ name, s'.Declares name → builtins.contains name = false)
    (htame : ∀ g, Value.function g ∈ s'.pools.constants →
      Value.function g ∈ s.pools.constants ∨ Tame s'.Declares g) : Careful builtins s' := by
  refine ⟨hready, hfree, fun g hg => ?_⟩
  rcases htame g hg with hg | hg
  · exact (hs.tame g hg).mono fun _ => happended.declares
  · exact hg

/-- Where the scopes are as before. -/
theorem Careful.of_scopes_eq (hs : Careful builtins s) (hready : Ready s')
    (happended : Appended s s') (hscopes : s'.scopes = s.scopes)
    (htame : ∀ g, Value.function g ∈ s'.pools.constants →
      Value.function g ∈ s.pools.constants ∨ Tame s'.Declares g) : Careful builtins s' := by
  refine hs.next hready happended (fun name hname => hs.free name ?_) htame
  obtain ⟨scope, hscope, hdeclared⟩ := hname
  exact ⟨scope, hscopes ▸ hscope, hdeclared⟩

/-- A function that becomes a constant should store to declared names only. -/
theorem Careful.addConstant {v : Value} {span : Span} {i : Nat} (hs : Careful builtins s)
    (hv : v.isConstant = true)
    (hg : ∀ g, v = .function g → Compiled g ∧ s.draft.Feeds g ∧ Tame s.Declares g)
    (hx : addConstant v span s = .ok (i, s')) : Careful builtins s' ∧ Appended s s' := by
  obtain ⟨hready, -, hscopes, -⟩ := addConstant_spec hs.ready hv
    (fun g hv => ⟨(hg g hv).1, (hg g hv).2.1⟩) hx
  have happended := Appends.addConstant v span s
  rw [left_of_ok hx] at happended
  refine ⟨hs.of_scopes_eq hready happended hscopes fun g hmem => ?_, happended⟩
  rw [addConstant_eq] at hx
  split at hx
  · cases hx
    exact .inl hmem
  · split at hx
    · cases hx
      rcases Array.mem_push.1 hmem with hmem | hmem
      · exact .inl hmem
      · exact .inr (hg g hmem.symm).2.2
    · cases hx

end

/-! ## Assertions -/

/-- If the item stores to a name of the session, the name has been declared. -/
def Item.Heeds (s : CompileState) (item : Item) : Prop :=
  ∀ ins, item = .op ins → ins.op.storesName = true →
    ∃ name, s.pools.names.keys[ins.operand 0]? = some name ∧ s.Declares name

/-- The symbol stands for a variable, or for a declared name. -/
def Symbol.Heeds (s : CompileState) : Symbol → Prop
  | .slot _ | .free _ => True
  | .global n | .name n => s.Declares n

theorem Appended.name {s s' : CompileState} (h : Appended s s') {i : Nat} {name : String}
    (hname : s.pools.names.keys[i]? = some name) : s'.pools.names.keys[i]? = some name := by
  unfold OrderedMap.keys at hname ⊢
  rw [Array.getElem?_map, Option.map_eq_some_iff] at hname ⊢
  obtain ⟨e, he, hfst⟩ := hname
  obtain ⟨more, hmore⟩ := h.names
  refine ⟨e, ?_, hfst⟩
  rw [← Array.getElem?_toList] at he ⊢
  rw [show s'.pools.names.entries.toList = _ from hmore.symm]
  exact (List.getElem?_append_left (List.getElem?_eq_some_iff.1 he).1).trans he

/-- What stays true while the tables grow. -/
structure Assertion where
  holds : CompileState → Prop
  stays : ∀ {s s' : CompileState}, Appended s s' → holds s → holds s'

namespace Assertion

def always : Assertion := ⟨fun _ => True, fun _ h => h⟩

def and (C D : Assertion) : Assertion :=
  ⟨fun s => C.holds s ∧ D.holds s, fun h hs => ⟨C.stays h hs.1, D.stays h hs.2⟩⟩

/-- The second assertion holds wherever the first one does. -/
def Entails (C D : Assertion) : Prop := ∀ s, C.holds s → D.holds s

theorem Entails.last {C D : Assertion} : (C.and D).Entails D := fun _ h => h.2

theorem Entails.before {C D E : Assertion} (h : C.Entails E) : (C.and D).Entails E :=
  fun s hs => h s hs.1

def item (i : Item) : Assertion :=
  ⟨i.Heeds, fun h hi ins hins hstores => by
    obtain ⟨name, hname, hdeclared⟩ := hi ins hins hstores
    exact ⟨name, h.name hname, h.declares hdeclared⟩⟩

def items (l : List Item) : Assertion :=
  ⟨fun s => ∀ i ∈ l, i.Heeds s, fun h hl i hi => (item i).stays h (hl i hi)⟩

def code (f : Fragment) : Assertion := items f.toList

def symbol (x : Symbol) : Assertion :=
  ⟨x.Heeds, fun h hx => by
    cases x with
    | slot i | free i => trivial
    | global n | name n => exact h.declares hx⟩

/-- The place stands for the name. -/
def place (name : String) (i : Nat) : Assertion :=
  ⟨fun s => s.pools.names.keys[i]? = some name, fun h hi => h.name hi⟩

end Assertion

section
variable {s : CompileState} {a b : Fragment}

theorem heeds_op {ins : Instruction} (h : ins.op.storesName = false) : Item.Heeds s (.op ins) := by
  rintro _ ⟨⟩ hstores
  rw [h] at hstores
  cases hstores

theorem Assertion.code_empty : (Assertion.code #[]).holds s := fun _ h => absurd h List.not_mem_nil

theorem Assertion.code_push (ha : (Assertion.code a).holds s) {i : Item} (hi : i.Heeds s) :
    (Assertion.code (a.push i)).holds s := by
  intro j hj
  rw [Array.toList_push] at hj
  rcases List.mem_append.1 hj with hj | hj
  · exact ha j hj
  · rw [List.mem_singleton.1 hj]
    exact hi

theorem Assertion.code_append (ha : (Assertion.code a).holds s) (hb : (Assertion.code b).holds s) :
    (Assertion.code (a ++ b)).holds s := by
  intro j hj
  rw [Array.toList_append] at hj
  rcases List.mem_append.1 hj with hj | hj
  · exact ha j hj
  · exact hb j hj

/-- The ways out of a loop become jumps. -/
theorem Assertion.code_closeLoop (ha : (Assertion.code a).holds s) (body tail : Nat) :
    (Assertion.code (a.closeLoop body tail)).holds s := by
  have hclose : ∀ (items : List Item) (pos : Nat), (∀ i ∈ items, i.Heeds s) →
      ∀ i ∈ closeItems body tail pos items, i.Heeds s := by
    intro items
    induction items with
    | nil => exact fun _ h => h
    | cons first rest ih =>
      intro pos h
      obtain ⟨hfirst, hrest⟩ := List.forall_mem_cons.1 h
      refine List.forall_mem_cons.2 ⟨?_, ih _ hrest⟩
      cases first with
      | op ins => exact hfirst
      | hole exit => cases exit <;> exact heeds_op rfl
  unfold code items
  rw [Fragment.toList_closeLoop]
  exact hclose a.toList 0 ha

end

/-- The part of the compiler, where the first assertion holds, keeps the state careful and makes the
second one true. -/
def Heeds {α : Type} (builtins : Std.HashSet String) (C : Assertion) (x : CompileM α)
    (Q : α → Assertion) : Prop :=
  ∀ ⦃s s' : CompileState⦄ ⦃a : α⦄, Careful builtins s → C.holds s → x s = .ok (a, s') →
    Careful builtins s' ∧ Appended s s' ∧ (Q a).holds s'

section
variable {α β : Type} {builtins : Std.HashSet String} {C : Assertion} {Q : α → Assertion}
  {R : β → Assertion}

namespace Heeds

theorem pure {a : α} (h : C.Entails (Q a)) : Heeds builtins C (pure a) Q := by
  intro s s' b hs hC hx
  obtain ⟨rfl, rfl⟩ := pure_eq_ok.1 hx
  exact ⟨hs, .refl s, h s hC⟩

theorem fail (fault : CompileFault) (span : Span) : Heeds builtins C (fail fault span) Q :=
  fun _ _ _ _ _ hx => absurd hx fail_ne_ok

/-- What has been asserted before still holds after the first part. -/
theorem bind {x : CompileM α} {k : α → CompileM β} (hx : Heeds builtins C x Q)
    (hk : ∀ a, Heeds builtins (C.and (Q a)) (k a) R) : Heeds builtins C (x >>= k) R := by
  intro s s' b hs hC h
  obtain ⟨a, s₁, ha, hb⟩ := bind_eq_ok.1 h
  obtain ⟨hs₁, happended, hQ⟩ := hx hs hC ha
  obtain ⟨hs', happended', hR⟩ := hk a hs₁ ⟨C.stays happended hC, hQ⟩ hb
  exact ⟨hs', happended.trans happended', hR⟩

theorem ite {c : Prop} [Decidable c] {x y : CompileM α} (hx : Heeds builtins C x Q)
    (hy : Heeds builtins C y Q) : Heeds builtins C (if c then x else y) Q := by
  split
  · exact hx
  · exact hy

theorem inFunction : Heeds builtins C inFunction fun _ => .always := by
  intro s s' b hs _ hx
  obtain ⟨rfl, -⟩ := inFunction_eq_ok hx
  exact ⟨hs, .refl _, trivial⟩

theorem checkCount (count : Nat) (what : String) (limit : Nat) (span : Span) :
    Heeds builtins C (checkCount count what limit span) fun _ => .always := by
  intro s s' u hs _ hx
  obtain ⟨-, rfl⟩ := checkCount_eq_ok hx
  exact ⟨hs, .refl _, trivial⟩

theorem emit {op : Opcode} (h : op.storesName = false) (operands : List Nat) (span : Span) :
    Heeds builtins C (emit op operands span) .item := by
  intro s s' i hs _ hx
  obtain ⟨rfl, rfl, -⟩ := emit_eq_ok hx
  exact ⟨hs, .refl _, heeds_op h⟩

theorem emitJump {op : Opcode} (h : op.storesName = false) (distance : Nat) (span : Span) :
    Heeds builtins C (emitJump op distance span) .item := by
  intro s s' i hs _ hx
  obtain ⟨rfl, rfl, -⟩ := emitJump_eq_ok hx
  exact ⟨hs, .refl _, heeds_op h⟩

/-! ## Constants, names and variables -/

/-- A constant that is no function. -/
theorem addConstant {v : Value} (hv : v.isConstant = true) (hf : ∀ g, v ≠ .function g)
    (span : Span) : Heeds builtins C (addConstant v span) fun _ => .always := by
  intro s s' i hs _ hx
  obtain ⟨hs', happended⟩ := hs.addConstant hv (fun g hg => absurd hg (hf g)) hx
  exact ⟨hs', happended, trivial⟩

theorem addName (name : String) (span : Span) :
    Heeds builtins C (addName name span) (.place name) := by
  intro s s' i hs _ hx
  obtain ⟨hready, -, hscopes, hi⟩ := addName_spec hs.ready hx
  have happended := Appends.addName name span s
  rw [left_of_ok hx] at happended
  refine ⟨hs.of_scopes_eq hready happended hscopes fun g hg => .inl ?_, happended, hi⟩
  rw [addName_eq] at hx
  split at hx
  · cases hx
    exact hg
  · split at hx
    · cases hx
      exact hg
    · cases hx

theorem resolve (name : String) : Heeds builtins C (resolve name) fun _ => .always := by
  intro s s' symbol hs _ hx
  obtain ⟨hready, -⟩ := resolve_spec hs.ready hx
  have happended := Appends.resolve name s
  rw [left_of_ok hx] at happended
  cases hx
  refine ⟨hs.next hready happended (fun n hn => hs.free n ?_) fun g hg => .inl hg, happended,
    trivial⟩
  obtain ⟨scope, hscope, hkind, hdeclared⟩ := hn
  exact ⟨scope, Scope.mem_of_mem_resolve name hscope hkind, hkind, hdeclared⟩

/-- A name that is declared in a function is a variable of it; at the top level it should not be the
name of a builtin. -/
theorem declareHere {s s' : CompileState} {name : String} {span : Span} {symbol : Symbol}
    (hs : Careful builtins s)
    (hname : ∀ scope outer, s.scopes = scope :: outer → scope.kind = .topLevel →
      builtins.contains name = false)
    (hx : declareHere name span s = .ok (symbol, s')) :
    Careful builtins s' ∧ Appended s s' ∧ symbol.Heeds s' := by
  obtain ⟨hready, -⟩ := declareHere_spec hs.ready hx
  have happended := Appends.declareHere name span s
  rw [left_of_ok hx] at happended
  obtain ⟨scope, outer, scope', hscopes, hdeclare, rfl⟩ := declareHere_eq_ok hx
  have houter : ∀ {other : Scope} {n : String}, other ∈ outer → other.kind = .topLevel →
      other.declared.contains n = true → builtins.contains n = false := by
    intro other n hother hkind hn
    exact hs.free n ⟨other, hscopes ▸ List.mem_cons_of_mem scope hother, hkind, hn⟩
  unfold Scope.declare at hdeclare
  cases hkind : scope.kind with
  | topLevel =>
    rw [hkind] at hdeclare
    cases hdeclare
    have hdeclared : (scope.declared.insert name ()).contains name = true :=
      OrderedMap.contains_iff_mem_keys.2 (OrderedMap.mem_keys_insert.2 (.inr rfl))
    refine ⟨hs.next hready happended (fun n hn => ?_) fun g hg => .inl hg, happended,
      _, List.mem_cons_self, rfl, hdeclared⟩
    obtain ⟨other, hother, hkind', hn⟩ := hn
    rcases List.mem_cons.1 hother with rfl | hother
    · rw [OrderedMap.contains_iff_mem_keys, OrderedMap.mem_keys_insert] at hn
      rcases hn with hn | rfl
      · exact hs.free n ⟨scope, hscopes ▸ List.mem_cons_self, hkind,
          OrderedMap.contains_iff_mem_keys.2 hn⟩
      · exact hname scope outer hscopes hkind
    · exact houter hother hkind' hn
  | function =>
    rw [hkind] at hdeclare
    have hslot : scope'.kind = .function ∧ ∃ i, symbol = .slot i := by
      dsimp only at hdeclare
      split at hdeclare
      · cases hdeclare
        exact ⟨hkind, _, rfl⟩
      · split at hdeclare
        · cases hdeclare
          exact ⟨rfl, _, rfl⟩
        · cases hdeclare
    obtain ⟨hfunction, i, rfl⟩ := hslot
    refine ⟨hs.next hready happended (fun n hn => ?_) fun g hg => .inl hg, happended, trivial⟩
    obtain ⟨other, hother, hkind', hn⟩ := hn
    rcases List.mem_cons.1 hother with rfl | hother
    · cases hkind'.symm.trans hfunction
    · exact houter hother hkind' hn

/-- At the top level, no name of a builtin is declared. -/
theorem declare (name : String) (span : Span) :
    Heeds builtins C (declare builtins name span) .symbol := by
  intro s s' symbol hs hC hx
  unfold Ember.declare at hx
  obtain ⟨inside, s₁, hinside, hdeclare⟩ := bind_eq_ok.1 hx
  obtain ⟨rfl, rfl⟩ := inFunction_eq_ok hinside
  split at hdeclare
  · exact absurd hdeclare fail_ne_ok
  · rename_i hallowed
    refine declareHere hs (fun scope outer hscopes hkind => ?_) hdeclare
    rw [hscopes] at hallowed
    simpa [Scope.isFunction, hkind] using hallowed

/-- A function assigns to a name of the session only if it has been declared. -/
theorem assignmentTarget (name : String) (span : Span) :
    Heeds builtins C (assignmentTarget builtins name span) .symbol := by
  intro s s' symbol hs hC hx
  unfold Ember.assignmentTarget at hx
  obtain ⟨inside, s₁, hinside, hx⟩ := bind_eq_ok.1 hx
  obtain ⟨rfl, rfl⟩ := inFunction_eq_ok hinside
  split at hx
  · exact declare name span hs hC hx
  · rename_i hfunction
    obtain ⟨found, s₂, hresolve, hx⟩ := bind_eq_ok.1 hx
    obtain ⟨hs₂, happended, -⟩ := resolve name hs hC hresolve
    obtain ⟨-, -, scope, outer, hscopes, hmeans⟩ := resolve_spec hs.ready hresolve
    split at hx
    · obtain ⟨declared, s₃, hdeclared, hx⟩ := bind_eq_ok.1 hx
      cases hdeclared
      split at hx
      · rename_i hlast
        obtain ⟨rfl, rfl⟩ := pure_eq_ok.1 hx
        exact ⟨hs₂, happended, declares_of_getLast hs₂.ready hlast⟩
      · split at hx
        · exact absurd hx fail_ne_ok
        · exact absurd hx fail_ne_ok
    · rename_i hglobal
      obtain ⟨rfl, rfl⟩ := pure_eq_ok.1 hx
      refine ⟨hs₂, happended, ?_⟩
      cases found with
      | slot i | free i => trivial
      | global n => exact absurd rfl (hglobal n)
      | name n =>
        -- only at the top level does a name resolve to one used there
        have hkinds := happended.scopes
        rw [hscopes] at hkinds
        obtain ⟨around, rest, happended', -, hbefore⟩ := List.forall₂_cons_right_iff.1 hkinds
        rw [hbefore] at hfunction
        have htop : around.kind = .topLevel := happended'.kind.symm.trans hmeans.2
        simp [Scope.isFunction, htop] at hfunction

/-- Loads of names, and access to variables. -/
theorem loadSymbol (symbol : Symbol) (span : Span) :
    Heeds builtins C (loadSymbol symbol span) .item := by
  cases symbol with
  | slot i | free i => exact emit rfl _ span
  | global n | name n => exact (addName n span).bind fun i => emit rfl _ span

/-- A store to a name that has been declared. -/
theorem storeSymbol {symbol : Symbol} (h : C.Entails (.symbol symbol)) (span : Span) :
    Heeds builtins C (storeSymbol symbol span) .item := by
  have hnamed : ∀ {op : Opcode} {n : String}, (∀ s, C.holds s → s.Declares n) →
      Heeds builtins C (do CompileM.emit op [← CompileM.addName n span] span) .item := by
    intro op n hn
    refine (addName n span).bind fun i s s' item hs hC hx => ?_
    obtain ⟨rfl, rfl, -⟩ := emit_eq_ok hx
    refine ⟨hs, .refl _, fun ins hins _ => ?_⟩
    cases hins
    exact ⟨n, hC.2, hn _ hC.1⟩
  cases symbol with
  | slot i | free i => exact emit rfl _ span
  | global n | name n => exact hnamed h

theorem loadConstant {v : Value} (hv : v.isConstant = true) (hf : ∀ g, v ≠ .function g)
    (span : Span) : Heeds builtins C (loadConstant v span) .code :=
  (addConstant hv hf span).bind fun _ => (emit rfl _ span).bind fun _ => .pure fun _ h =>
    Assertion.code_push Assertion.code_empty h.2

/-! ## Functions -/

theorem mapM {k : β → CompileM Item} (hk : ∀ (D : Assertion) b, Heeds builtins D (k b) .item)
    (l : List β) : Heeds builtins C (l.mapM k) .items := by
  induction l generalizing C with
  | nil => exact .pure fun s _ i hi => absurd hi List.not_mem_nil
  | cons b rest ih =>
    rw [List.mapM_cons]
    exact (hk C b).bind fun item => ih.bind fun items => .pure fun s h =>
      List.forall_mem_cons.2 ⟨h.1.2, h.2⟩

theorem makeCell (f : FreeVariable) (span : Span) : Heeds builtins C (makeCell f span) .item := by
  unfold Ember.makeCell
  split
  · exact emit rfl _ span
  · exact emit rfl _ span

/-- The code that makes a function a value stores nothing. -/
theorem loadFunction {s s' : CompileState} {g : Routine Value} {span : Span} {code : Fragment}
    (hs : Careful builtins s) (hg : Compiled g) (hfeeds : s.draft.Feeds g)
    (htame : Tame s.Declares g) (hx : loadFunction g span s = .ok (code, s')) :
    Careful builtins s' ∧ Appended s s' ∧ (Assertion.code code).holds s' := by
  unfold Ember.loadFunction at hx
  obtain ⟨i, s₁, hadd, hx⟩ := bind_eq_ok.1 hx
  obtain ⟨hs₁, happended⟩ := hs.addConstant rfl
    (fun g' hg' => by cases hg'; exact ⟨hg, hfeeds, htame⟩) hadd
  have hrest : Heeds builtins .always (if g.freeVariables.isEmpty then
      (do return #[← CompileM.emit .loadConst [i] span])
      else do
        let cells ← g.freeVariables.mapM fun f => Ember.makeCell f span
        return cells.push (← CompileM.emit .loadClosure [i, g.freeVariables.size] span)) .code := by
    refine ite ((emit rfl _ span).bind fun item => .pure fun s h =>
      Assertion.code_push Assertion.code_empty h.2) ?_
    refine bind (Q := Assertion.code) ?_ fun cells => (emit rfl _ span).bind fun item =>
      .pure fun s h => Assertion.code_push h.1.2 h.2
    rw [Array.mapM_eq_mapM_toList, map_eq_pure_bind]
    exact (mapM (fun _ f => makeCell f span) _).bind fun items => .pure fun s h => h.2
  obtain ⟨hs', happended', hcode⟩ := hrest hs₁ trivial hx
  exact ⟨hs', happended.trans happended', hcode⟩

end Heeds

end

/-- Planned code stores only to the names that its instructions name. -/
theorem Planned.storesOnly {f : Routine Value} {start : Nat} {row : List Instruction} {p : Plan}
    {allowed : String → Prop} (h : Planned f start row p)
    (hrow : ∀ ins ∈ row, ins.op.storesName = true →
      ∃ n, f.names[ins.operand 0]? = some n ∧ allowed n) :
    f.StoresOnly allowed fun pos => ∃ s, p.shapeFrom start pos = some s := by
  refine ⟨fun pos ins n hpos hdecoded hstores hn => ?_, fun pos ins hpos hdecoded hfalls => ?_,
    fun pos ins target hpos hdecoded htarget => ?_⟩
  · obtain ⟨s, hs⟩ := hpos
    obtain ⟨front, ins', back, -, hsplit, rfl, -⟩ := h.item hs
    have hdecodes := h.decodes
    rw [hsplit] at hdecodes
    cases hdecoded.symm.trans hdecodes.decode_eq
    obtain ⟨n', hn', hallowed⟩ := hrow ins (hsplit ▸ List.mem_append_right _ List.mem_cons_self)
      hstores
    cases hn.symm.trans hn'
    exact hallowed
  · obtain ⟨s, hs⟩ := hpos
    obtain ⟨ins', s', hdecoded', -, -, -, hnext, -⟩ := h.visit hs
    cases hdecoded.symm.trans hdecoded'
    exact ⟨s', hnext hfalls⟩
  · obtain ⟨s, hs⟩ := hpos
    obtain ⟨ins', s', hdecoded', -, -, -, -, hjump⟩ := h.visit hs
    cases hdecoded.symm.trans hdecoded'
    have hisJump : ins.op.isJump = true := by
      unfold Instruction.target? at htarget
      split at htarget
      · assumption
      · cases htarget
    obtain ⟨t, ht, hshape⟩ := hjump hisJump
    cases htarget.symm.trans ht
    exact ⟨s', hshape⟩

/-- What has been asserted of the items, as a condition on the instructions. -/
theorem Assertion.stores_of_items {s : CompileState} {row : List Instruction}
    (h : (Assertion.items (row.map Item.op)).holds s) (ins : Instruction) (hins : ins ∈ row)
    (hstores : ins.op.storesName = true) :
    ∃ n, s.pools.names.keys[ins.operand 0]? = some n ∧ s.Declares n :=
  h _ (List.mem_map_of_mem hins) ins rfl hstores

theorem declares_cons_function {pools pools' : Pools} {scope : Scope} {scopes : List Scope}
    {nextId nextId' : Nat} (hkind : scope.kind = .function) {name : String} :
    CompileState.Declares ⟨pools, scope :: scopes, nextId⟩ name ↔
      CompileState.Declares ⟨pools', scopes, nextId'⟩ name := by
  constructor
  · rintro ⟨other, hother, htop, hname⟩
    rcases List.mem_cons.1 hother with rfl | hother
    · cases hkind.symm.trans htop
    · exact ⟨other, hother, htop, hname⟩
  · rintro ⟨other, hother, htop, hname⟩
    exact ⟨other, List.mem_cons_of_mem _ hother, htop, hname⟩

/-- The constants of a careful state are tame. -/
theorem Careful.constants {builtins : Std.HashSet String} {s : CompileState}
    (hs : Careful builtins s) : ∀ v ∈ s.pools.constants, v.Obeys (tameOnly s.Declares) := by
  intro v hv g cells hcallee
  have hconstant := hs.ready.constant v hv
  cases v with
  | function g' =>
    cases hcallee
    exact hs.tame g hv
  | _ => cases hconstant <;> cases hcallee

/-- A function whose code has been compiled with care is tame. -/
theorem Careful.tame_routine {builtins : Std.HashSet String} {s : CompileState}
    (hs : Careful builtins s) (name : String) (params : List String) {body : Fragment}
    (hkind : s.draft.scope.kind = .function)
    (hflowing : Flowing s.draft body.toList (.values 0) (.values 0)) (hclosed : Closed body.toList)
    (hcode : (Assertion.code body).holds s) : Tame s.Declares (s.routine name params body) := by
  obtain ⟨row, p, hplanned, -, hitems⟩ := planned_routine name params hkind hflowing hclosed
  have hrow : (Assertion.items (row.map Item.op)).holds s := by
    rw [hitems]
    intro i hi
    rcases List.mem_append.1 hi with hi | hi
    · exact hcode i hi
    · rw [List.mem_singleton.1 hi]
      exact heeds_op rfl
  exact .intro ⟨_, ⟨_, hplanned.entry_shape⟩,
    hplanned.storesOnly (Assertion.stores_of_items hrow)⟩ hs.constants

/-- The body of a function is compiled in a state of its own. -/
theorem Heeds.compileFunction {builtins : Std.HashSet String} {C : Assertion}
    {body : CompileM Fragment} (hruns : Runs false body) (hbody : Heeds builtins .always body .code)
    (name : String) (params : List String) (span : Span) :
    Heeds builtins C (compileFunction name params span body) .code := by
  intro s s' code hs _ hx
  obtain ⟨scope, inner, s₁, s₂, hready, hinner, hkind, hs₂, -, hpools, hscopes, hcompiled, hfeeds,
    hload⟩ := compileFunction_eq_ok hs.ready (fun _ _ _ hs h => hruns hs h) hx
  have hyields := hruns hready hinner
  obtain ⟨scope₁, around, hextends, -, hscopes₁⟩ :=
    List.forall₂_cons_left_iff.1 hyields.grows.scopes
  obtain ⟨pools₁, scopes₁, nextId₁⟩ := s₁
  obtain rfl : scopes₁ = scope₁ :: around := hscopes₁
  obtain ⟨pools₂, scopes₂, nextId₂⟩ := s₂
  obtain rfl : scopes₂ = around := hscopes
  have hkind₁ : scope₁.kind = .function := hkind
  have hinside : Careful builtins { s with pools := .empty, scopes := scope :: s.scopes } := by
    refine ⟨hready, fun n hn => hs.free n ?_, fun g hg => absurd hg (Array.not_mem_empty _)⟩
    exact (declares_cons_function (hextends.kind.symm.trans hkind₁)).1 hn
  obtain ⟨hs₁, happended, hcode⟩ := hbody hinside trivial hinner
  have htame := hs₁.tame_routine name params hkind hyields.flowing (hyields.closed rfl) hcode
  -- the code around goes on with its own tables, and with the scopes as the body has left them
  have haround : Appended s ⟨pools₂, scopes₂, nextId₂⟩ := by
    obtain rfl : pools₂ = s.pools := hpools
    exact .of_scopes nextId₂ (List.forall₂_cons.1 happended.scopes).2
  have hcareful : Careful builtins ⟨pools₂, scopes₂, nextId₂⟩ := by
    refine hs.next hs₂ haround (fun n hn => hs₁.free n ?_) fun g hg => .inl (hpools ▸ hg)
    exact (declares_cons_function hkind₁).2 hn
  obtain ⟨hs', happended', hcode'⟩ := loadFunction hcareful hcompiled hfeeds
    (htame.mono fun n => (declares_cons_function hkind₁).1) hload
  exact ⟨hs', haround.trans happended', hcode'⟩

/-! ## Programs -/

section
variable {builtins : Std.HashSet String}

theorem heeds_joinConnective {C : Assertion} {left right : Fragment}
    (hleft : C.Entails (.code left)) (hright : C.Entails (.code right)) (op : Connective)
    (span : Span) :
    Heeds builtins C (joinConnective op left right span) .code := by
  intro s s' code hs hC hx
  obtain ⟨rfl, -, hcode⟩ := joinConnective_eq_ok hx
  refine ⟨hs, .refl s', fun i hi => ?_⟩
  rw [hcode, Connective.items] at hi
  simp only [List.mem_append, List.mem_cons, List.not_mem_nil, or_false] at hi
  rcases hi with hi | rfl | hi | rfl | rfl | rfl | rfl
  · exact hleft s' hC i hi
  · cases op <;> exact heeds_op rfl
  · exact hright s' hC i hi
  · cases op <;> exact heeds_op rfl
  · cases op <;> exact heeds_op rfl
  · exact heeds_op rfl
  · cases op <;> exact heeds_op rfl

/-- One instruction that stores to no name. -/
theorem Heeds.one {C : Assertion} {ins : Instruction} (h : ins.op.storesName = false) :
    Heeds builtins C (Pure.pure #[.op ins]) .code :=
  .pure fun _ _ => Assertion.code_push Assertion.code_empty (heeds_op h)

/-- A part of the compiler, and then one instruction that stores to no name. -/
theorem Heeds.push {C : Assertion} {x : CompileM Fragment} {ins : Instruction}
    (hx : Heeds builtins C x .code) (h : ins.op.storesName = false) :
    Heeds builtins C (do return (← x).push (.op ins)) .code :=
  hx.bind fun _ => .pure fun _ hs => Assertion.code_push hs.2 (heeds_op h)

/-- Two parts of the compiler, and then such an instruction. -/
theorem Heeds.join {C : Assertion} {x y : CompileM Fragment} {ins : Instruction}
    (hx : ∀ D, Heeds builtins D x .code) (hy : ∀ D, Heeds builtins D y .code)
    (h : ins.op.storesName = false) :
    Heeds builtins C (do
      let first ← x
      let second ← y
      return (first ++ second).push (.op ins)) .code :=
  (hx _).bind fun _ => (hy _).bind fun _ => .pure fun _ hs =>
    Assertion.code_push (Assertion.code_append hs.1.2 hs.2) (heeds_op h)

/-- A function that is stored under the name that has been declared, or assigned to, for it. -/
theorem Heeds.storeFunction {C : Assertion} {y : CompileM Symbol} {body : CompileM Fragment}
    (hy : Heeds builtins C y .symbol) (hruns : Runs false body)
    (hbody : Heeds builtins .always body .code) (name : String) (params : List String)
    (span span' : Span) :
    Heeds builtins C (do
      let symbol ← y
      let code ← Ember.compileFunction name params span' body
      return code.push (← Ember.storeSymbol symbol span)) .code :=
  hy.bind fun _ => .bind (.compileFunction hruns hbody name params span') fun _ =>
    .bind (.storeSymbol (.before .last) span) fun _ => .pure fun _ h =>
      Assertion.code_push h.1.2 h.2

mutual

theorem compileExpr_heeds :
    ∀ (e : Expr) (C : Assertion), Heeds builtins C (compileExpr builtins e) .code
  | .int _ n, _ => .loadConstant (v := .int n) rfl nofun _
  | .float _ x, _ => .loadConstant (v := .float x) rfl nofun _
  | .str _ text, _ => .loadConstant (v := .str text) rfl nofun _
  | .bool _ true, _ | .bool _ false, _ | .nil _, _ => .one rfl
  | .ident _ name, _ =>
    .bind (.resolve name) fun _ => .bind (.loadSymbol _ _) fun _ => .pure fun _ h =>
      Assertion.code_push Assertion.code_empty h.2
  | .list _ items, _ | .set _ items, _ =>
    .bind (.checkCount _ _ _ _) fun _ =>
      .bind (compileExprs_heeds items _ _ fun _ _ => Assertion.code_empty) fun _ =>
        .bind (.emit rfl _ _) fun _ => .pure fun _ h => Assertion.code_push h.1.2 h.2
  | .map _ entries, _ =>
    .bind (.checkCount _ _ _ _) fun _ =>
      .bind (compileEntries_heeds entries _ _ fun _ _ => Assertion.code_empty) fun _ =>
        .bind (.emit rfl _ _) fun _ => .pure fun _ h => Assertion.code_push h.1.2 h.2
  | .unary _ op operand, _ => (compileExpr_heeds operand _).push (by cases op <;> rfl)
  | .binary _ op left right, _ =>
    .join (compileExpr_heeds left) (compileExpr_heeds right) (by cases op <;> rfl)
  | .logical _ _ left right, _ =>
    .bind (compileExpr_heeds left _) fun _ => .bind (compileExpr_heeds right _) fun _ =>
      heeds_joinConnective (.before .last) .last _ _
  | .call _ callee args, _ =>
    .bind (.checkCount _ _ _ _) fun _ => .bind (compileExpr_heeds callee _) fun _ =>
      .bind (compileExprs_heeds args _ _ .last) fun _ =>
        .bind (.emit rfl _ _) fun _ => .pure fun _ h => Assertion.code_push h.1.2 h.2
  | .index _ object key, _ => .join (compileExpr_heeds object) (compileExpr_heeds key) rfl
  | .attr _ object name, _ =>
    .bind (compileExpr_heeds object _) fun _ => .bind (.addName name _) fun _ =>
      .bind (.emit rfl _ _) fun _ => .pure fun _ h => Assertion.code_push h.1.1.2 h.2
  | .func _ params body, _ =>
    .compileFunction (compileStmts_runs false body).runs
      (compileStmts_heeds false body _ _ fun _ _ => Assertion.code_empty) _ params _

theorem compileExprs_heeds : ∀ (items : List Expr) (code : Fragment) (C : Assertion),
    C.Entails (.code code) → Heeds builtins C (compileExprs builtins items code) .code
  | [], _, _, h => .pure h
  | e :: rest, _, _, h =>
    .bind (compileExpr_heeds e _) fun _ => compileExprs_heeds rest _ _ fun s hs =>
      Assertion.code_append (h s hs.1) hs.2

theorem compileEntries_heeds : ∀ (entries : List (Expr × Expr)) (code : Fragment) (C : Assertion),
    C.Entails (.code code) → Heeds builtins C (compileEntries builtins entries code) .code
  | [], _, _, h => .pure h
  | (k, v) :: rest, _, _, h =>
    .bind (compileExpr_heeds k _) fun _ => .bind (compileExpr_heeds v _) fun _ =>
      compileEntries_heeds rest _ _ fun s hs =>
        Assertion.code_append (Assertion.code_append (h s hs.1.1) hs.1.2) hs.2

theorem compileStmt_heeds (inLoop : Bool) :
    ∀ (st : Stmt) (C : Assertion), Heeds builtins C (compileStmt builtins inLoop st) .code
  | .var _ name value, C => by
    have hvalue : Heeds builtins C (compileExpr builtins value) .code := compileExpr_heeds value C
    cases value with
    | func funcSpan params body =>
      exact .storeFunction (.declare name _) (compileStmts_runs false body).runs
        (compileStmts_heeds false body _ _ fun _ _ => Assertion.code_empty) name params _ _
    | _ =>
      exact .bind hvalue fun _ => .bind (.declare name _) fun _ =>
        .bind (.storeSymbol .last _) fun _ => .pure fun _ h =>
          Assertion.code_push h.1.1.2 h.2
  | .assign _ (.ident _ name) value, C => by
    have hvalue : ∀ D, Heeds builtins D (compileExpr builtins value) .code :=
      compileExpr_heeds value
    cases value with
    | func funcSpan params body =>
      exact .storeFunction (.assignmentTarget name _) (compileStmts_runs false body).runs
        (compileStmts_heeds false body _ _ fun _ _ => Assertion.code_empty) name params _ _
    | _ =>
      exact .bind (.assignmentTarget name _) fun _ => .bind (hvalue _) fun _ =>
        .bind (.storeSymbol (.before .last) _) fun _ => .pure fun _ h =>
          Assertion.code_push h.1.2 h.2
  | .assign _ (.index _ object key) value, _ =>
    .bind (compileExpr_heeds value _) fun _ => .bind (compileExpr_heeds object _) fun _ =>
      .bind (compileExpr_heeds key _) fun _ => .pure fun _ h =>
        Assertion.code_push (Assertion.code_append (Assertion.code_append h.1.1.2 h.1.2) h.2)
          (heeds_op rfl)
  | .assign _ (.attr _ object name) value, _ =>
    .bind (compileExpr_heeds value _) fun _ => .bind (compileExpr_heeds object _) fun _ =>
      .bind (.addName name _) fun _ => .bind (.emit rfl _ _) fun _ => .pure fun _ h =>
        Assertion.code_push (Assertion.code_append h.1.1.1.2 h.1.1.2) h.2
  | .assign _ (.int ..) _, _ | .assign _ (.float ..) _, _ | .assign _ (.str ..) _, _
  | .assign _ (.bool ..) _, _ | .assign _ (.nil ..) _, _ | .assign _ (.list ..) _, _
  | .assign _ (.map ..) _, _ | .assign _ (.set ..) _, _ | .assign _ (.unary ..) _, _
  | .assign _ (.binary ..) _, _ | .assign _ (.logical ..) _, _ | .assign _ (.call ..) _, _
  | .assign _ (.func ..) _, _ => .fail _ _
  | .funcDef _ name params body, _ =>
    .storeFunction (.declare name _) (compileStmts_runs false body).runs
      (compileStmts_heeds false body _ _ fun _ _ => Assertion.code_empty) name params _ _
  | .return _ none, _ => .bind .inFunction fun _ => .ite (.one rfl) (.fail _ _)
  | .return _ (some value), _ =>
    .bind .inFunction fun _ => .ite ((compileExpr_heeds value _).push rfl) (.fail _ _)
  | .if _ cond thenBody none, _ =>
    .bind (compileExpr_heeds cond _) fun _ =>
      .bind (compileStmts_heeds inLoop thenBody _ _ fun _ _ => Assertion.code_empty) fun _ =>
        .bind (.emitJump rfl _ _) fun _ => .pure fun _ h =>
          Assertion.code_append (Assertion.code_push h.1.1.2 h.2) h.1.2
  | .if _ cond thenBody (some elseBody), _ =>
    .bind (compileExpr_heeds cond _) fun _ =>
      .bind (compileStmts_heeds inLoop thenBody _ _ fun _ _ => Assertion.code_empty) fun _ =>
        .bind (.emitJump rfl _ _) fun _ =>
          .bind (compileStmts_heeds inLoop elseBody _ _ fun _ _ => Assertion.code_empty) fun _ =>
            .bind (.emitJump rfl _ _) fun _ => .pure fun _ h =>
              Assertion.code_append (Assertion.code_push (Assertion.code_append
                (Assertion.code_push h.1.1.1.1.2 h.1.1.2) h.1.1.1.2) h.2) h.1.2
  | .while _ cond body, _ =>
    .bind (compileStmts_heeds true body _ _ fun _ _ => Assertion.code_empty) fun _ =>
      .bind (.emitJump rfl _ _) fun _ => .bind (compileExpr_heeds cond _) fun _ =>
        .bind (.emit rfl _ _) fun _ => .pure fun _ h =>
          Assertion.code_push (Assertion.code_append (Assertion.code_append
            (Assertion.code_push Assertion.code_empty h.1.1.2)
            (Assertion.code_closeLoop h.1.1.1.2 _ _)) h.1.2) h.2
  | .break _, _ | .continue _, _ =>
    .ite (.pure fun _ _ => Assertion.code_push Assertion.code_empty nofun) (.fail _ _)
  | .print _ value, _ | .expr _ value, _ => (compileExpr_heeds value _).push rfl
  | .delete _ object key, _ => .join (compileExpr_heeds object) (compileExpr_heeds key) rfl

theorem compileStmts_heeds (inLoop : Bool) : ∀ (body : List Stmt) (code : Fragment) (C : Assertion),
    C.Entails (.code code) → Heeds builtins C (compileStmts builtins inLoop body code) .code
  | [], _, _, h => .pure h
  | st :: rest, _, _, h =>
    .bind (compileStmt_heeds inLoop st _) fun _ => compileStmts_heeds inLoop rest _ _ fun s hs =>
      Assertion.code_append (h s hs.1) hs.2

end

theorem compileChunk_heeds (statements : List Stmt) (code : Fragment) (C : Assertion)
    (h : C.Entails (.code code)) :
    Heeds builtins C (compileChunk builtins statements code) .code := by
  fun_induction compileChunk builtins statements code generalizing C with
  | case1 code => exact .pure fun s hs => Assertion.code_push (h s hs) (heeds_op rfl)
  | case2 span value code =>
    exact .bind (compileExpr_heeds value _) fun _ => .pure fun s hs =>
      Assertion.code_push (Assertion.code_append (h s hs.1) hs.2) (heeds_op rfl)
  | case3 st rest code hne ih =>
    exact .bind (compileStmt_heeds false st _) fun more => ih more _ fun s hs =>
      Assertion.code_append (h s hs.1) hs.2

end

/-! ## Sessions -/

namespace Compiler

variable {c c' : Compiler} {p : Program} {range : CodeRange}

/-- The code that begins at the offset goes on only to its own instructions, and these store to
declared names only. -/
def Guards (c : Compiler) (start : Nat) : Prop :=
  ∃ row plan, Planned c.main start row plan ∧ (Assertion.items (row.map Item.op)).holds c.state

theorem Guards.place {start : Nat} (h : c.Guards start) :
    Place.StoresOnly c.state.Declares (c.main, start) := by
  obtain ⟨row, plan, hplanned, hrow⟩ := h
  exact ⟨_, ⟨_, hplanned.entry_shape⟩, hplanned.storesOnly (Assertion.stores_of_items hrow)⟩

theorem declares_state (hc : c.Sound) {name : String} :
    c.state.Declares name ↔ c.scope.declared.contains name = true := by
  have htop : c.scope.kind = .topLevel := kind_main hc
  constructor
  · rintro ⟨scope, hscope, -, hname⟩
    obtain rfl := List.mem_singleton.1 hscope
    exact hname
  · exact fun hname => ⟨c.scope, List.mem_singleton.2 rfl, htop, hname⟩

theorem careful_start (builtins : Array String) (firstId : Nat) :
    Careful (start builtins firstId).builtins (start builtins firstId).state := by
  have hsound := sound_start builtins firstId
  refine ⟨hsound, fun name hname => ?_, fun g hg => absurd hg (Array.not_mem_empty _)⟩
  have hkey : name ∈ (OrderedMap.empty : OrderedMap String Unit).keys :=
    OrderedMap.contains_iff_mem_keys.1 ((declares_state hsound).1 hname)
  rw [OrderedMap.keys_empty] at hkey
  exact absurd hkey (Array.not_mem_empty name)

/-- What a program that is compiled adds to a session, and that it leaves the code before it as it
was. -/
theorem compile_careful (hc : Careful c.builtins c.state) (h : c.compile p = .ok (range, c')) :
    c'.builtins = c.builtins ∧ Careful c'.builtins c'.state ∧ Appended c.state c'.state ∧
      c'.Guards range.start ∧ ∀ start, c.Guards start → c'.Guards start := by
  obtain ⟨_, _, -, hrange, hc'⟩ := compile_eq_ok h
  have hbuiltins : c'.builtins = c.builtins := by rw [hc']
  obtain ⟨fragment, row, plan, hchunk, -, -, -, hitems, hplanned, -⟩ := compile_planned hc.ready h
  obtain ⟨hext, more, hcode⟩ := compile_keeps hc.ready h
  obtain ⟨hcareful, happended, hheeds⟩ := compileChunk_heeds p.statements #[] .always
    (fun _ _ => Assertion.code_empty) hc trivial hchunk
  refine ⟨hbuiltins, hbuiltins ▸ hcareful, happended, ?_,
    fun start ⟨row, plan, hplanned, hrow⟩ => ⟨row, plan, hplanned.mono hext hcode,
      (Assertion.items _).stays happended hrow⟩⟩
  rw [hrange]
  refine ⟨_, plan, hplanned, ?_⟩
  unfold Assertion.code at hheeds
  rwa [hitems] at hheeds

end Compiler

end Ember
