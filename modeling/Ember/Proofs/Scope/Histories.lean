import Ember.Proofs.Scope.Trees

/-! Histories of trees of scopes. Whatever scopes are added, and whatever is declared and resolved
in them in whatever order, where a name is found is told by what has been declared so far. -/
namespace Ember
set_option autoImplicit false

/-! ## Calls -/

/-- What can be done to a tree of scopes. -/
inductive ScopeCall
  | topLevel (name : String)
  | function (name : String) (parent : Nat)
  | declare (id : Nat) (name : String)
  | resolve (id : Nat) (name : String)

namespace ScopeCall

/-- The scopes that the call is about are there. -/
def Refers (t : ScopeTree) : ScopeCall → Prop
  | topLevel _ => True
  | function _ id | declare id _ | resolve id _ => id < t.nodes.size

def perform (t : ScopeTree) : ScopeCall → ScopeTree
  | topLevel name => (t.add (.topLevel name) none).2
  | function name parent => (t.add (.function name) (some parent)).2
  | declare id name => (t.declare id name).2
  | resolve id name => (t.resolve id name).2

/-- The name that is declared in a scope. -/
def declared? (id : Nat) : ScopeCall → Option String
  | declare id' name => if id' = id then some name else none
  | _ => none

end ScopeCall

/-- The names that are declared in a function, in the order of their first declarations, as far as
there are slots for them. -/
def declaredIn (id : Nat) (calls : List ScopeCall) : List String :=
  (calls.filterMap (ScopeCall.declared? id)).eraseDups.take Scope.slotLimit

namespace ScopeTree

/-- The calls, one after the other, make the second tree of the first. -/
inductive Leads (t : ScopeTree) : List ScopeCall → ScopeTree → Prop
  | start : Leads t [] t
  | step {calls : List ScopeCall} {u : ScopeTree} {c : ScopeCall} (h : Leads t calls u)
    (hc : c.Refers u) : Leads t (calls ++ [c]) (c.perform u)

variable {t t' : ScopeTree} {c : ScopeCall} {calls more : List ScopeCall} {id : Nat}

theorem sound_empty : empty.Sound := fun _ => ⟨rfl, rfl, rfl⟩

/-! ### One call -/

theorem Sound.perform (h : t.Sound) (hc : c.Refers t) :
    (c.perform t).Sound ∧ t.Grows (c.perform t) := by
  cases c with
  | topLevel name => exact ⟨h.addTopLevel name, grows_add t _ _⟩
  | function name parent => exact ⟨h.addFunction name hc, grows_add t _ _⟩
  | declare id name => exact ⟨h.declare hc name, grows_declare hc name⟩
  | resolve id name => exact ⟨(h.resolve hc name).sound, (h.resolve hc name).grows⟩

theorem Leads.grows (h : t.Leads calls t') (hsound : t.Sound) : t'.Sound ∧ t.Grows t' := by
  induction h with
  | start => exact ⟨hsound, .refl t⟩
  | step _ hc ih =>
    obtain ⟨hsound, hgrows⟩ := ih
    exact ⟨(hsound.perform hc).1, hgrows.trans (hsound.perform hc).2⟩

/-- A call that declares nothing leaves the slots of all functions alone. -/
theorem Sound.keeps (h : t.Sound) (hc : c.Refers t) (hnone : ∀ id, c.declared? id = none) {a : Nat}
    (ha : a < t.nodes.size) : (t.scope a).Keeps ((c.perform t).scope a) := by
  refine ⟨(h.perform hc).2.scope a ha, ?_⟩
  cases c with
  | topLevel name => exact congrArg Scope.locals (scope_add_of_ne _ _ (Nat.ne_of_lt ha))
  | function name parent => exact congrArg Scope.locals (scope_add_of_ne _ _ (Nat.ne_of_lt ha))
  | declare id name =>
    have hid := hnone id
    rw [ScopeCall.declared?, if_pos rfl] at hid
    cases hid
  | resolve id name => exact ((h.resolve hc name).captures a).locals

theorem Leads.keeps (h : t.Leads calls t') (hsound : t.Sound)
    (hnone : ∀ c ∈ calls, ∀ id, c.declared? id = none) {a : Nat} (ha : a < t.nodes.size) :
    (t.scope a).Keeps (t'.scope a) := by
  induction h with
  | start => exact ⟨.refl _, rfl⟩
  | @step calls u c h hc ih =>
    obtain ⟨husound, hgrows⟩ := h.grows hsound
    have hfirst := ih fun c hc => hnone c (List.mem_append_left _ hc)
    have hsecond := husound.keeps hc (hnone c (List.mem_append_right _ List.mem_cons_self))
      (Nat.lt_of_lt_of_le ha hgrows.size)
    exact ⟨hfirst.growth.trans hsecond.growth, hsecond.locals.trans hfirst.locals⟩

/-- A call captures one more variable in a scope, at most. -/
theorem Sound.size_captured_perform (h : t.Sound) (hc : c.Refers t) (a : Nat) :
    ((c.perform t).scope a).captured.size ≤ (t.scope a).captured.size + 1 := by
  have hadd : ∀ (s : Scope) (parent : Option Nat), s.captured = .empty →
      ((t.add s parent).2.scope a).captured.size ≤ (t.scope a).captured.size + 1 := by
    intro s parent hs
    by_cases ha : a = t.nodes.size
    · rw [ha, scope_add, hs]
      exact Nat.zero_le _
    · rw [scope_add_of_ne s parent ha]
      exact Nat.le_succ _
  cases c with
  | topLevel name => exact hadd _ _ rfl
  | function name parent => exact hadd _ _ rfl
  | declare id name =>
    rw [ScopeCall.perform]
    by_cases ha : id = a
    · subst ha
      rw [scope_declare hc, (extends_declare _ name).2.1]
      exact Nat.le_succ _
    · rw [scope_declare_of_ne ha]
      exact Nat.le_succ _
  | resolve id name => exact ((h.resolve hc name).captures a).size

theorem Leads.size_captured (h : empty.Leads calls t) (a : Nat) :
    (t.scope a).captured.size ≤ calls.length := by
  induction h with
  | start => exact Nat.le_refl 0
  | step h hc ih =>
    have hstep := (h.grows sound_empty).1.size_captured_perform hc a
    rw [List.length_append, List.length_singleton]
    omega

/-! ### Slots -/

theorem declaredIn_concat (id : Nat) (calls : List ScopeCall) (c : ScopeCall) :
    declaredIn id (calls ++ [c]) = match c.declared? id with
      | some name =>
        ((calls.filterMap (ScopeCall.declared? id)) ++ [name]).eraseDups.take Scope.slotLimit
      | none => declaredIn id calls := by
  rw [declaredIn, List.filterMap_append, List.filterMap_cons]
  cases c.declared? id with
  | none =>
    rw [List.filterMap_nil, List.append_nil]
    rfl
  | some name => rfl

theorem eraseDups_concat (names : List String) (name : String) :
    (names ++ [name]).eraseDups =
      if name ∈ names then names.eraseDups else names.eraseDups ++ [name] := by
  rw [List.eraseDups_append]
  by_cases h : name ∈ names
  · rw [if_pos h]
    simp [List.removeAll, h]
  · rw [if_neg h]
    simp [List.removeAll, h, List.eraseDups_cons]

/-- A function gives a name that is new the next slot, if there is one. -/
theorem toList_keys_declare {s : Scope} (hkind : s.kind = .function) {names : List String}
    (hslots : s.locals.keys.toList = names.eraseDups.take Scope.slotLimit) (name : String) :
    (s.declare name).2.locals.keys.toList =
      (names ++ [name]).eraseDups.take Scope.slotLimit := by
  have hlength : min Scope.slotLimit names.eraseDups.length = s.locals.size := by
    rw [← List.length_take, ← hslots, Array.length_toList, OrderedMap.size_keys]
  rw [eraseDups_concat, Scope.declare, hkind]
  dsimp only
  cases hposition : s.locals.position? name with
  | some slot =>
    have hkey : name ∈ s.locals.keys.toList := Array.mem_toList_iff.2
      (Array.mem_of_getElem? (OrderedMap.position?_eq_some_iff.1 hposition))
    rw [hslots] at hkey
    rw [if_pos (List.mem_eraseDups.1 (List.mem_of_mem_take hkey))]
    exact hslots
  | none =>
    dsimp only
    by_cases hroom : s.locals.size < Scope.slotLimit
    · have hall : names.eraseDups.take Scope.slotLimit = names.eraseDups :=
        List.take_of_length_le (by omega)
      have hnew : name ∉ names := fun hmem => by
        refine OrderedMap.position?_eq_none_iff.1 hposition (Array.mem_toList_iff.1 ?_)
        rw [hslots, hall]
        exact List.mem_eraseDups.2 hmem
      have hfits : (names.eraseDups ++ [name]).length ≤ Scope.slotLimit := by
        rw [List.length_append, List.length_singleton]
        omega
      rw [if_pos hroom, if_neg hnew, List.take_of_length_le hfits]
      change (s.locals.insert name ()).keys.toList = _
      rw [OrderedMap.keys_insert_of_none hposition, Array.toList_push, hslots, hall]
    · have hfull : Scope.slotLimit ≤ names.eraseDups.length := by omega
      rw [if_neg hroom]
      by_cases hmem : name ∈ names
      · rw [if_pos hmem]
        exact hslots
      · rw [if_neg hmem, List.take_append_of_le_length hfull]
        exact hslots

/-- The functions of a tree have slots for what has been declared in them. -/
structure Declares (calls : List ScopeCall) (t : ScopeTree) : Prop where
  slots : ∀ id, (t.scope id).kind = .function →
    (t.scope id).locals.keys.toList = declaredIn id calls
  later : ∀ id, t.nodes.size ≤ id → declaredIn id calls = []

theorem Declares.start : Declares [] empty where
  slots _ h := by cases h
  later _ _ := rfl

/-- In a scope that has been added nothing is declared yet. -/
theorem Declares.add (h : Declares calls t) {s : Scope} (hs : s.locals = .empty)
    (parent : Option Nat) : Declares calls (t.add s parent).2 where
  slots id hkind := by
    by_cases hid : id = t.nodes.size
    · subst hid
      rw [scope_add, hs, h.later _ (Nat.le_refl _), OrderedMap.keys_empty]
    · rw [scope_add_of_ne s parent hid] at hkind ⊢
      exact h.slots id hkind
  later id hid := h.later id (Nat.le_trans (grows_add t s parent).size hid)

theorem Declares.declare (h : Declares calls t) (hid : id < t.nodes.size) (name : String) :
    Declares (calls ++ [.declare id name]) (t.declare id name).2 := by
  refine ⟨fun id' hkind => ?_, fun id' hid' => ?_⟩
  · rw [declaredIn_concat, ScopeCall.declared?]
    by_cases heq : id = id'
    · subst heq
      rw [scope_declare hid] at hkind ⊢
      have hfunction := (extends_declare (t.scope id) name).1.kind.symm.trans hkind
      rw [if_pos rfl]
      exact toList_keys_declare hfunction (h.slots id hfunction) name
    · rw [scope_declare_of_ne heq] at hkind ⊢
      rw [if_neg heq]
      exact h.slots id' hkind
  · rw [size_declare] at hid'
    rw [declaredIn_concat, ScopeCall.declared?, if_neg (by omega)]
    exact h.later id' hid'

theorem Declares.resolve (h : Declares calls t) (hsound : t.Sound) (hid : id < t.nodes.size)
    (name : String) : Declares calls (t.resolve id name).2 := by
  have hresolved := hsound.resolve hid name
  refine ⟨fun id' hkind => ?_, fun id' hid' => h.later id' (hresolved.size ▸ hid')⟩
  rw [(hresolved.captures id').locals]
  exact h.slots id' ((hresolved.growth id').kind.symm.trans hkind)

theorem Declares.perform (h : Declares calls t) (hsound : t.Sound) (hc : c.Refers t) :
    Declares (calls ++ [c]) (c.perform t) := by
  have hnone : (∀ id, c.declared? id = none) → Declares calls (c.perform t) →
      Declares (calls ++ [c]) (c.perform t) := fun hnone hsame =>
    have hcalls : ∀ id, declaredIn id (calls ++ [c]) = declaredIn id calls := fun id => by
      rw [declaredIn_concat, hnone id]
    ⟨fun id hkind => (hsame.slots id hkind).trans (hcalls id).symm,
      fun id hid => (hcalls id).trans (hsame.later id hid)⟩
  cases c with
  | topLevel name => exact hnone (fun _ => rfl) (h.add rfl none)
  | function name parent => exact hnone (fun _ => rfl) (h.add rfl (some parent))
  | declare id name => exact h.declare hc name
  | resolve id name => exact hnone (fun _ => rfl) (h.resolve hsound hc name)

theorem Leads.declares (h : empty.Leads calls t) : Declares calls t := by
  induction h with
  | start => exact .start
  | step h hc ih => exact ih.perform (h.grows sound_empty).1 hc

/-! ## What holds after calls -/

/-- Two bytes can number what each scope captures. -/
def Fits (t : ScopeTree) : Prop := ∀ id, (t.scope id).Fits

/-- It takes many calls for a scope not to fit. -/
theorem Leads.fits (h : empty.Leads calls t) (hcalls : calls.length ≤ Scope.slotLimit) : t.Fits :=
  fun a => Nat.le_trans (h.size_captured a) hcalls

/-- What scopes hold after calls. The slots of a function are for the names declared in it, and what
it has captured are different variables, each of which is where it says in the scope around it. A
top level has neither slots nor captured variables. -/
structure Ordered (calls : List ScopeCall) (t : ScopeTree) : Prop where
  slots : ∀ id, (t.scope id).kind = .function →
    (t.scope id).locals.keys.toList = declaredIn id calls
  topLevel : ∀ id, (t.scope id).kind = .topLevel →
    (t.scope id).locals = .empty ∧ (t.scope id).captured = .empty
  distinct : ∀ id, (t.scope id).captured.keys.toList.Nodup
  ofSlot : ∀ id name i, (name, .slot i) ∈ (t.scope id).captured.entries →
    ∃ p, t.parent? id = some p ∧ (t.scope p).locals.keys[i]? = some name
  ofFree : ∀ id name i, (name, .free i) ∈ (t.scope id).captured.entries →
    ∃ p, t.parent? id = some p ∧ (t.scope p).captured.keys[i]? = some name

/-- What resolving a name in a scope gives, and the tree that it leaves. -/
structure Finds (calls : List ScopeCall) (t : ScopeTree) (id : Nat) (name : String)
    (symbol : Symbol) (t' : ScopeTree) : Prop where
  slot : ∀ i, symbol = .slot i → (t.scope id).locals.keys[i]? = some name
  free : ∀ i, symbol = .free i → (t'.scope id).captured.keys[i]? = some name
  function : (t.scope id).kind = .function →
    (∃ i, symbol = .slot i) ∨ (∃ i, symbol = .free i) ∨ symbol = .global name
  isGlobal : (t.scope id).kind = .function → (symbol = .global name ↔
    ∀ a, t.Around id a → (t.scope a).kind = .function → name ∉ declaredIn a calls)
  topLevel : (t.scope id).kind = .topLevel → symbol = .name name ∧ t' = t
  untouched : ∀ a, (t.scope a).kind = .topLevel → t'.scope a = t.scope a
  again : ∀ more t'', t'.Leads more t'' → (∀ c ∈ more, ∀ a, c.declared? a = none) → t''.Fits →
    t''.resolve id name = (symbol, t'')

theorem Sound.topLevel (h : t.Sound) (hkind : (t.scope id).kind = .topLevel) :
    t.parent? id = none ∧ (t.scope id).locals = .empty ∧ (t.scope id).captured = .empty := by
  cases hp : t.parent? id with
  | none => exact ⟨rfl, ((placed_of_none hp).1 (h id)).2⟩
  | some p => cases hkind.symm.trans ((placed_of_some hp).1 (h id)).2.1

/-- Only functions capture variables, and they do so from the scope around them. -/
theorem Sound.exists_holds (h : t.Sound) {name : String} {c : Capture}
    (he : (name, c) ∈ (t.scope id).captured.entries) :
    ∃ p, t.parent? id = some p ∧ (t.scope p).Holds name c := by
  cases hp : t.parent? id with
  | none =>
    rw [((placed_of_none hp).1 (h id)).2.2, OrderedMap.entries_empty] at he
    exact absurd he (Array.not_mem_empty _)
  | some p => exact ⟨p, rfl, ((placed_of_some hp).1 (h id)).2.2 _ he⟩

theorem Leads.ordered (h : empty.Leads calls t) (hfits : t.Fits) : Ordered calls t := by
  have hsound := (h.grows sound_empty).1
  refine ⟨h.declares.slots, fun id hkind => (hsound.topLevel hkind).2,
    fun id => OrderedMap.nodup_keys _, fun id name i he => hsound.exists_holds he,
    fun id name i he => ?_⟩
  obtain ⟨p, hp, hholds⟩ := hsound.exists_holds he
  exact ⟨p, hp, hholds.2 (hfits p)⟩

/-- A name is one of the session just if no function around has declared it. -/
theorem Leads.resolve_global_iff (h : empty.Leads calls t) (hfits : t.Fits) {name : String} :
    (t.resolve id name).1 = .global name ↔ (t.scope id).kind = .function ∧
      ∀ a, t.Around id a → (t.scope a).kind = .function → name ∉ declaredIn a calls := by
  have hsound := (h.grows sound_empty).1
  have hnested := hsound.nested id
  have hlocals : ∀ a, name ∉ (t.scope a).locals.keys ↔
      ((t.scope a).kind = .function → name ∉ declaredIn a calls) := by
    intro a
    cases hkind : (t.scope a).kind with
    | topLevel =>
      rw [(hsound.topLevel hkind).2.1, OrderedMap.keys_empty]
      exact iff_of_true (Array.not_mem_empty name) nofun
    | function =>
      rw [← h.declares.slots a hkind, Array.mem_toList_iff]
      exact ⟨fun hnew _ => hnew, fun hnew => hnew rfl⟩
  obtain ⟨rest, hchain⟩ := t.exists_chain_eq_cons id
  rw [hchain, List.map_cons] at hnested
  have hrest : ∀ s ∈ rest.map t.scope, s.Fits := List.forall_mem_map.2 fun a _ => hfits a
  have hiff : (Scope.resolve name (t.scope id :: rest.map t.scope)).1 = .global name ↔ _ :=
    hnested.resolve_global_iff hrest
  rw [← List.map_cons, ← hchain, List.forall_mem_map] at hiff
  simp only [hlocals, hsound.descends.mem_chain_iff] at hiff
  exact hiff

/-- What has been resolved is found again, as long as nothing is declared. -/
theorem Sound.resolve_again (h : t.Sound) (hid : id < t.nodes.size) {name : String}
    {u : ScopeTree} (hleads : (t.resolve id name).2.Leads more u)
    (hnone : ∀ c ∈ more, ∀ a, c.declared? a = none) (hfits : u.Fits) :
    u.resolve id name = ((t.resolve id name).1, u) := by
  have hresolved := h.resolve hid name
  obtain ⟨husound, hgrows⟩ := hleads.grows hresolved.sound
  have hbound : ∀ a ∈ t.chain id, a < (t.resolve id name).2.nodes.size := fun a ha => by
    rw [hresolved.size]
    exact Nat.lt_of_le_of_lt (h.descends.le_of_around (h.descends.mem_chain_iff.1 ha)) hid
  have hchain : (t.resolve id name).2.chain id = t.chain id :=
    chain_congr h.descends fun a _ => hresolved.parent a
  have hchain' : u.chain id = t.chain id := chain_congr h.descends fun a ha => by
    rw [hgrows.parent a (by rw [hresolved.size]; omega), hresolved.parent a]
  have hkeeps : List.Forall₂ Scope.Keeps (Scope.resolve name ((t.chain id).map t.scope)).2
      ((u.chain id).map u.scope) := by
    rw [← hresolved.chain, hchain, hchain', List.forall₂_map_left_iff, List.forall₂_map_right_iff,
      List.forall₂_same]
    exact fun a ha => hleads.keeps hresolved.sound hnone (hbound a ha)
  have hagain := (h.nested id).resolve_again hkeeps (husound.nested id)
    (List.forall_mem_map.2 fun a _ => hfits a)
  rw [u.resolve_eq, hagain, setScopes_self]
  rfl

theorem Sound.resolve_topLevel (h : t.Sound) (hkind : (t.scope id).kind = .topLevel)
    (name : String) : t.resolve id name = (.name name, t) := by
  have hscopes : Scope.resolve name ((t.chain id).map t.scope) =
      (.name name, (t.chain id).map t.scope) := by
    rw [chain_of_none (h.topLevel hkind).1, List.map_singleton, Scope.resolve, hkind]
  rw [resolve_eq, hscopes, setScopes_self]

/-- The symbol that is found says where the name is. -/
theorem Sound.resolve_means (h : t.Sound) (hid : id < t.nodes.size) (name : String) :
    ((t.resolve id name).2.scope id).Means name (t.resolve id name).1 := by
  obtain ⟨-, -, s, outer, hscopes, hmeans⟩ := Scope.resolve_spec name (h.nested id)
  have hchain := (h.resolve hid name).chain
  obtain ⟨rest, hrest⟩ := (t.resolve id name).2.exists_chain_eq_cons id
  rw [hrest, List.map_cons, hscopes] at hchain
  rw [(List.cons.inj hchain).1]
  exact hmeans

theorem Leads.finds (h : empty.Leads calls t) (hfits : t.Fits) (hid : id < t.nodes.size)
    (name : String) (hfits' : (t.resolve id name).2.Fits) :
    Finds calls t id name (t.resolve id name).1 (t.resolve id name).2 := by
  have hsound := (h.grows sound_empty).1
  have hresolved := hsound.resolve hid name
  have hmeans := hsound.resolve_means hid name
  refine ⟨fun i hi => ?_, fun i hi => ?_, fun hkind => ?_, fun hkind => ?_, fun hkind => ?_,
    fun a => (hresolved.captures a).top, fun more u => hsound.resolve_again hid⟩
  · rw [hi] at hmeans
    rw [← (hresolved.captures id).locals]
    exact hmeans
  · rw [hi] at hmeans
    exact hmeans.2 (hfits' id)
  · cases hsymbol : (t.resolve id name).1 with
    | slot i => exact .inl ⟨i, rfl⟩
    | free i => exact .inr (.inl ⟨i, rfl⟩)
    | global n =>
      rw [hsymbol] at hmeans
      exact .inr (.inr (congrArg Symbol.global hmeans.1))
    | name n =>
      rw [hsymbol] at hmeans
      cases ((hresolved.growth id).kind.trans hkind).symm.trans hmeans.2
  · rw [h.resolve_global_iff hfits]
    exact and_iff_right hkind
  · rw [hsound.resolve_topLevel hkind]
    exact ⟨rfl, rfl⟩

theorem exists_slot_of_declare {s s' : Scope} {name : String} {symbol : Symbol}
    (hkind : s.kind = .function) (h : s.declare name = (some symbol, s')) :
    ∃ i, symbol = .slot i := by
  unfold Scope.declare at h
  rw [hkind] at h
  dsimp only at h
  split at h
  · cases h
    exact ⟨_, rfl⟩
  · split at h
    · cases h
      exact ⟨_, rfl⟩
    · cases h

/-- What declaring a name in a function gives: the slot that the name has among those declared, or
nothing if all slots are taken. -/
theorem Leads.declare (h : empty.Leads calls t) (hid : id < t.nodes.size)
    (hkind : (t.scope id).kind = .function) (name : String) :
    match (t.declare id name).1 with
    | some symbol => ∃ i, symbol = .slot i ∧
        (declaredIn id (calls ++ [.declare id name]))[i]? = some name
    | none => name ∉ declaredIn id calls ∧ (declaredIn id calls).length = Scope.slotLimit ∧
        (t.declare id name).2 = t := by
  have hslots := h.declares.slots id hkind
  have hlater := (h.step (c := .declare id name) hid).declares.slots id
  rcases hdeclare : (t.scope id).declare name with ⟨symbol, s⟩
  have hscope : (ScopeCall.perform t (.declare id name)).scope id = s := by
    rw [ScopeCall.perform, scope_declare hid, hdeclare]
  rw [hscope] at hlater
  rw [declare_eq, hdeclare]
  cases symbol with
  | some symbol =>
    obtain ⟨hext, hmeans, -⟩ := Scope.declare_spec hdeclare
    obtain ⟨i, rfl⟩ := exists_slot_of_declare hkind hdeclare
    refine ⟨i, rfl, ?_⟩
    rw [← hlater (hext.kind.trans hkind), Array.getElem?_toList]
    exact hmeans
  | none =>
    obtain ⟨rfl, hnew, hfull⟩ := declare_of_none hdeclare
    have hlength : (declaredIn id calls).length = (t.scope id).locals.size := by
      rw [← hslots, Array.length_toList, OrderedMap.size_keys]
    have hle : (declaredIn id calls).length ≤ Scope.slotLimit := List.length_take_le _ _
    refine ⟨?_, by omega, setScope_self t id⟩
    rw [← hslots, Array.mem_toList_iff]
    exact OrderedMap.position?_eq_none_iff.1 hnew

/-- After any calls, scopes hold what is declared in them and variables of the scopes around them,
and whatever is done later they only grow. Declaring a name gives its slot, if there is one left;
resolving a name finds where it is, and finds it there again until something is declared. -/
theorem scopes_stay_ordered (h : empty.Leads calls t) (hfits : t.Fits) :
    Ordered calls t ∧
    (∀ more t', t.Leads more t' → t.Grows t') ∧
    (∀ id < t.nodes.size, (t.scope id).kind = .function → ∀ name,
      match (t.declare id name).1 with
      | some symbol => ∃ i, symbol = .slot i ∧
          (declaredIn id (calls ++ [.declare id name]))[i]? = some name
      | none => name ∉ declaredIn id calls ∧ (declaredIn id calls).length = Scope.slotLimit ∧
          (t.declare id name).2 = t) ∧
    ∀ id < t.nodes.size, ∀ name, (t.resolve id name).2.Fits →
      Finds calls t id name (t.resolve id name).1 (t.resolve id name).2 :=
  ⟨h.ordered hfits, fun _ _ hmore => (hmore.grows (h.grows sound_empty).1).2,
    fun _ hid hkind name => h.declare hid hkind name,
    fun _ hid name hfits' => h.finds hfits hid name hfits'⟩

/-- A function in a function that has declared a name. -/
theorem scopes_stay_ordered_nested : ∃ t : ScopeTree,
    empty.Leads [.topLevel "main", .function "outer" 0, .function "inner" 1, .declare 1 "n"] t ∧
      t.Fits ∧ (t.resolve 2 "n").2.Fits ∧
      (∃ i, (t.resolve 2 "n").1 = .free i ∧
        ((t.resolve 2 "n").2.scope 2).captured.keys[i]? = some "n") ∧
      (t.resolve 2 "m").1 = .global "m" := by
  let main := (ScopeCall.topLevel "main").perform empty
  let outer := (ScopeCall.function "outer" 0).perform main
  let inner := (ScopeCall.function "inner" 1).perform outer
  have hmain : empty.Leads [.topLevel "main"] main := .step .start (c := .topLevel "main") trivial
  have houter : empty.Leads [.topLevel "main", .function "outer" 0] outer :=
    .step hmain (c := .function "outer" 0) Nat.zero_lt_one
  have hinner : empty.Leads [.topLevel "main", .function "outer" 0, .function "inner" 1] inner :=
    .step houter (c := .function "inner" 1) (Nat.lt_succ_self 1)
  have hleads : empty.Leads _ (inner.declare 1 "n").2 :=
    .step hinner (c := .declare 1 "n") (Nat.lt_of_lt_of_eq (by decide : 1 < 3) rfl)
  have hfits := hleads.fits (by decide)
  have hid : 2 < (inner.declare 1 "n").2.nodes.size := by
    rw [size_declare]
    exact Nat.lt_succ_self 2
  have hresolved : ∀ name, ((inner.declare 1 "n").2.resolve 2 name).2.Fits := fun name =>
    (hleads.step (c := .resolve 2 name) hid).fits (by simp [Scope.slotLimit])
  obtain ⟨-, -, -, hfinds⟩ := scopes_stay_ordered hleads hfits
  have hscope : (inner.declare 1 "n").2.scope 2 = .function "inner" := by
    rw [scope_declare_of_ne (by decide)]
    rfl
  have hkind : ((inner.declare 1 "n").2.scope 2).kind = .function := by rw [hscope]; rfl
  refine ⟨_, hleads, hfits, hresolved "n", ?_, ?_⟩
  · have hn := hfinds 2 hid "n" (hresolved "n")
    rcases hn.function hkind with ⟨i, hi⟩ | ⟨i, hi⟩ | hglobal
    · have hslot := hn.slot i hi
      rw [hscope, Scope.function, OrderedMap.keys_empty, Array.getElem?_empty] at hslot
      cases hslot
    · exact ⟨i, hi, hn.free i hi⟩
    · have hparent : (inner.declare 1 "n").2.parent? 2 = some 1 := by
        rw [parent?_declare]
        rfl
      have hgrows : inner.Grows (inner.declare 1 "n").2 := grows_declare (by decide) "n"
      have houter : ((inner.declare 1 "n").2.scope 1).kind = .function :=
        (hgrows.scope 1 (by decide)).kind
      exact absurd (by decide) ((hn.isGlobal hkind).1 hglobal 1 (.single hparent) houter)
  · have hm := hfinds 2 hid "m" (hresolved "m")
    refine (hm.isGlobal hkind).2 fun a _ _ hmem => ?_
    have hdeclared := List.mem_eraseDups.1 (List.mem_of_mem_take hmem)
    simp [ScopeCall.declared?] at hdeclared

end ScopeTree
end Ember
