import Mathlib.Logic.Relation
import Ember.Proofs.Scope.Resolution
import Ember.Proofs.Value.Heaps

/-! Trees of scopes. What is captured in any scope of a tree is a variable of the scope around it,
and stays so whatever is declared or resolved wherever in the tree. -/
namespace Ember
namespace ScopeTree
set_option autoImplicit false

variable {t t' : ScopeTree} {id a p : Nat} {s : Scope} {name : String}

/-! ## Changing one scope -/

@[simp] theorem size_setScope (t : ScopeTree) (id : Nat) (s : Scope) :
    (t.setScope id s).nodes.size = t.nodes.size := Array.size_modify

@[simp] theorem parent?_setScope (t : ScopeTree) (id : Nat) (s : Scope) (a : Nat) :
    (t.setScope id s).parent? a = t.parent? a := by
  rw [parent?, parent?, setScope, Array.getD_eq_getD_getElem?, Array.getD_eq_getD_getElem?,
    Array.getElem?_modify]
  by_cases h : id = a
  · rw [if_pos h]
    cases t.nodes[a]? <;> rfl
  · rw [if_neg h]

theorem scope_setScope (hid : id < t.nodes.size) (s : Scope) : (t.setScope id s).scope id = s :=
  congrArg Prod.fst (getD_modify hid _ _)

theorem scope_setScope_of_ne (h : id ≠ a) (s : Scope) : (t.setScope id s).scope a = t.scope a :=
  congrArg Prod.fst (getD_modify_of_ne h _ _)

theorem setScope_self (t : ScopeTree) (id : Nat) : t.setScope id (t.scope id) = t := by
  have hsame : (fun node : Scope × Option Nat => (t.scope id, node.2)) (t.nodes.getD id default) =
      t.nodes.getD id default := rfl
  exact congrArg ScopeTree.mk (modify_eq_self hsame)

/-- Declaring a name changes the scope in its place. -/
theorem declare_eq (t : ScopeTree) (id : Nat) (name : String) :
    t.declare id name =
      (((t.scope id).declare name).1, t.setScope id ((t.scope id).declare name).2) := by
  rcases hnode : t.nodes.getD id default with ⟨s, parent⟩
  have hscope : t.scope id = s := congrArg Prod.fst hnode
  have hset : ∀ s' : Scope, (t.nodes.setIfInBounds id default).setIfInBounds id (s', parent) =
      t.nodes.modify id fun node => (s', node.2) := by
    intro s'
    refine Array.ext_getElem? fun i => ?_
    rw [Array.getElem?_setIfInBounds, Array.getElem?_setIfInBounds, Array.getElem?_modify,
      Array.size_setIfInBounds]
    by_cases hi : id = i
    · subst hi
      rw [if_pos rfl, if_pos rfl]
      rw [Array.getD_eq_getD_getElem?] at hnode
      by_cases hid : id < t.nodes.size
      · rw [Array.getElem?_eq_getElem hid] at hnode ⊢
        rw [if_pos hid]
        exact congrArg (fun node => some (s', node.2)) hnode.symm
      · rw [Array.getElem?_eq_none (Nat.le_of_not_lt hid), if_neg hid]
        rfl
    · rw [if_neg hi, if_neg hi, if_neg hi]
  unfold declare
  rw [hnode, hscope]
  exact congrArg (fun nodes => ((s.declare name).1, ScopeTree.mk nodes)) (hset _)

@[simp] theorem size_declare (t : ScopeTree) (id : Nat) (name : String) :
    (t.declare id name).2.nodes.size = t.nodes.size := by
  rw [declare_eq, size_setScope]

@[simp] theorem parent?_declare (t : ScopeTree) (id : Nat) (name : String) (a : Nat) :
    (t.declare id name).2.parent? a = t.parent? a := by
  rw [declare_eq, parent?_setScope]

theorem scope_declare (hid : id < t.nodes.size) (name : String) :
    (t.declare id name).2.scope id = ((t.scope id).declare name).2 := by
  rw [declare_eq, scope_setScope hid]

theorem scope_declare_of_ne (h : id ≠ a) (name : String) :
    (t.declare id name).2.scope a = t.scope a := by
  rw [declare_eq, scope_setScope_of_ne h]

/-! ## The scopes around a scope -/

/-- A scope stands after the one around it. -/
def Descends (t : ScopeTree) : Prop := ∀ a p, t.parent? a = some p → p < a

/-- The second scope is the first one, or is around it. -/
def Around (t : ScopeTree) : Nat → Nat → Prop :=
  Relation.ReflTransGen fun a p => t.parent? a = some p

theorem chain_of_none (h : t.parent? id = none) : t.chain id = [id] := by
  rw [chain, h]

theorem Descends.chain_of_some (hdown : t.Descends) (h : t.parent? id = some p) :
    t.chain id = id :: t.chain p := by
  rw [chain, h]
  exact if_pos (hdown id p h)

theorem Descends.mem_chain_iff (hdown : t.Descends) : a ∈ t.chain id ↔ t.Around id a := by
  induction id using Nat.strongRecOn generalizing a with
  | _ id ih =>
    unfold Around
    rw [Relation.ReflTransGen.cases_head_iff]
    cases hp : t.parent? id with
    | none =>
      rw [chain_of_none hp, List.mem_singleton]
      simp [eq_comm]
    | some p =>
      rw [hdown.chain_of_some hp, List.mem_cons, ih p (hdown id p hp)]
      simp [Around, eq_comm]

theorem Descends.le_of_around (hdown : t.Descends) (h : t.Around id a) : a ≤ id := by
  induction h with
  | refl => exact Nat.le_refl id
  | tail _ hp ih => exact Nat.le_trans (Nat.le_of_lt (hdown _ _ hp)) ih

theorem Descends.nodup_chain (hdown : t.Descends) (id : Nat) : (t.chain id).Nodup := by
  induction id using Nat.strongRecOn with
  | _ id ih =>
    cases hp : t.parent? id with
    | none =>
      rw [chain_of_none hp]
      exact List.nodup_cons.2 ⟨List.not_mem_nil, .nil⟩
    | some p =>
      have hlt := hdown id p hp
      rw [hdown.chain_of_some hp, List.nodup_cons]
      refine ⟨fun hmem => ?_, ih p hlt⟩
      exact Nat.lt_irrefl id
        (Nat.lt_of_le_of_lt (hdown.le_of_around (hdown.mem_chain_iff.1 hmem)) hlt)

/-- The scopes around one depend on the parents only. -/
theorem chain_congr (hdown : t.Descends) (h : ∀ a ≤ id, t'.parent? a = t.parent? a) :
    t'.chain id = t.chain id := by
  induction id using Nat.strongRecOn with
  | _ id ih =>
    have hid := h id (Nat.le_refl id)
    cases hp : t.parent? id with
    | none => rw [chain_of_none hp, chain_of_none (hid.trans hp)]
    | some p =>
      have hlt := hdown id p hp
      rw [hdown.chain_of_some hp, chain, hid, hp]
      dsimp only
      rw [if_pos hlt, ih p hlt fun a ha => h a (Nat.le_trans ha (Nat.le_of_lt hlt))]

theorem exists_chain_eq_cons (t : ScopeTree) (id : Nat) : ∃ rest, t.chain id = id :: rest := by
  unfold chain
  split
  · split
    · exact ⟨_, rfl⟩
    · exact ⟨[], rfl⟩
  · exact ⟨[], rfl⟩

/-! ## Sound trees -/

/-- A scope without one around it is a top level and has neither slots nor captured variables. Any
other one is a function, and what it captures are variables of the scope around it. -/
def Placed (t : ScopeTree) (id : Nat) : Prop :=
  match t.parent? id with
  | none => (t.scope id).kind = .topLevel ∧ (t.scope id).locals = .empty ∧
      (t.scope id).captured = .empty
  | some p => p < id ∧ (t.scope id).kind = .function ∧ Scope.Feeds (t.scope p) (t.scope id)

theorem placed_of_none (h : t.parent? id = none) : t.Placed id ↔
    (t.scope id).kind = .topLevel ∧ (t.scope id).locals = .empty ∧
      (t.scope id).captured = .empty := by
  rw [Placed, h]

theorem placed_of_some (h : t.parent? id = some p) : t.Placed id ↔
    p < id ∧ (t.scope id).kind = .function ∧ Scope.Feeds (t.scope p) (t.scope id) := by
  rw [Placed, h]

def Sound (t : ScopeTree) : Prop := ∀ id, t.Placed id

theorem Sound.descends (h : t.Sound) : t.Descends :=
  fun a _ hp => ((placed_of_some hp).1 (h a)).1

/-- The scopes around one are nested just if each of them has its place. -/
theorem Descends.nested_chain_iff (hdown : t.Descends) :
    Scope.Nested ((t.chain id).map t.scope) ↔ ∀ a ∈ t.chain id, t.Placed a := by
  induction id using Nat.strongRecOn with
  | _ id ih =>
    cases hp : t.parent? id with
    | none =>
      rw [chain_of_none hp, List.forall_mem_singleton, placed_of_none hp]
      constructor
      · intro h
        cases h with
        | top hkind hlocals hcaptured => exact ⟨hkind, hlocals, hcaptured⟩
      · rintro ⟨hkind, hlocals, hcaptured⟩
        exact .top hkind hlocals hcaptured
    | some p =>
      have hlt := hdown id p hp
      have hrest := ih p hlt
      obtain ⟨rest, hchain⟩ := t.exists_chain_eq_cons p
      rw [hdown.chain_of_some hp, List.forall_mem_cons, placed_of_some hp, ← hrest, hchain]
      constructor
      · intro h
        cases h with
        | function hkind hfeeds hrest => exact ⟨⟨hlt, hkind, hfeeds⟩, hrest⟩
      · rintro ⟨⟨-, hkind, hfeeds⟩, hrest⟩
        exact .function hkind hfeeds hrest

theorem Sound.nested (h : t.Sound) (id : Nat) : Scope.Nested ((t.chain id).map t.scope) :=
  h.descends.nested_chain_iff.2 fun a _ => h a

/-- Scopes grow in their places: those that are changed have to be placed anew. -/
theorem Sound.of_changes (h : t.Sound) (hparent : ∀ a, t'.parent? a = t.parent? a)
    (hext : ∀ a, (t.scope a).Extends (t'.scope a))
    (hchanged : ∀ a, t'.scope a = t.scope a ∨ t'.Placed a) : t'.Sound := by
  intro a
  rcases hchanged a with hsame | hplaced
  · cases hp : t.parent? a with
    | none =>
      rw [placed_of_none ((hparent a).trans hp), hsame]
      exact (placed_of_none hp).1 (h a)
    | some p =>
      rw [placed_of_some ((hparent a).trans hp), hsame]
      obtain ⟨hlt, hkind, hfeeds⟩ := (placed_of_some hp).1 (h a)
      exact ⟨hlt, hkind, hfeeds.mono (hext p)⟩
  · exact hplaced

/-! ## Growth -/

/-- Scopes have been added, and those that were there have grown in their places. -/
structure Grows (t t' : ScopeTree) : Prop where
  size : t.nodes.size ≤ t'.nodes.size
  parent : ∀ a < t.nodes.size, t'.parent? a = t.parent? a
  scope : ∀ a < t.nodes.size, (t.scope a).Extends (t'.scope a)

theorem Grows.refl (t : ScopeTree) : Grows t t :=
  ⟨Nat.le_refl _, fun _ _ => rfl, fun _ _ => .refl _⟩

theorem Grows.trans {u : ScopeTree} (htu : Grows t u) (hut' : Grows u t') : Grows t t' where
  size := Nat.le_trans htu.size hut'.size
  parent a ha := (hut'.parent a (Nat.lt_of_lt_of_le ha htu.size)).trans (htu.parent a ha)
  scope a ha := (htu.scope a ha).trans (hut'.scope a (Nat.lt_of_lt_of_le ha htu.size))

/-! ### Adding a scope -/

theorem getD_push_of_ne {α : Type} {nodes : Array α} (x default : α) (h : a ≠ nodes.size) :
    (nodes.push x).getD a default = nodes.getD a default := by
  rw [Array.getD_eq_getD_getElem?, Array.getD_eq_getD_getElem?, Array.getElem?_push, if_neg h]

theorem scope_add (t : ScopeTree) (s : Scope) (parent : Option Nat) :
    (t.add s parent).2.scope t.nodes.size = s := by
  rw [scope, add, Array.getD_eq_getD_getElem?, Array.getElem?_push_size]
  rfl

theorem parent?_add (t : ScopeTree) (s : Scope) (parent : Option Nat) :
    (t.add s parent).2.parent? t.nodes.size = parent := by
  rw [parent?, add, Array.getD_eq_getD_getElem?, Array.getElem?_push_size]
  rfl

theorem scope_add_of_ne (s : Scope) (parent : Option Nat) (h : a ≠ t.nodes.size) :
    (t.add s parent).2.scope a = t.scope a := congrArg Prod.fst (getD_push_of_ne _ _ h)

theorem parent?_add_of_ne (s : Scope) (parent : Option Nat) (h : a ≠ t.nodes.size) :
    (t.add s parent).2.parent? a = t.parent? a := congrArg Prod.snd (getD_push_of_ne _ _ h)

theorem grows_add (t : ScopeTree) (s : Scope) (parent : Option Nat) :
    Grows t (t.add s parent).2 where
  size := by
    rw [add, Array.size_push]
    exact Nat.le_succ _
  parent a ha := parent?_add_of_ne s parent (Nat.ne_of_lt ha)
  scope a ha := by
    rw [scope_add_of_ne s parent (Nat.ne_of_lt ha)]
    exact .refl _

theorem parent?_of_le (h : t.nodes.size ≤ a) : t.parent? a = none := by
  rw [parent?, Array.getD_eq_getD_getElem?, Array.getElem?_eq_none h]
  rfl

theorem Sound.add (h : t.Sound) {parent : Option Nat}
    (hnew : (t.add s parent).2.Placed t.nodes.size) : (t.add s parent).2.Sound := by
  intro a
  by_cases ha : a = t.nodes.size
  · exact ha ▸ hnew
  · have hparent := parent?_add_of_ne s parent ha
    cases hp : t.parent? a with
    | none =>
      rw [placed_of_none (hparent.trans hp), scope_add_of_ne s parent ha]
      exact (placed_of_none hp).1 (h a)
    | some p =>
      obtain ⟨hlt, hrest⟩ := (placed_of_some hp).1 (h a)
      have hold : a < t.nodes.size := Nat.lt_of_not_le fun hle => by
        cases (parent?_of_le hle).symm.trans hp
      rw [placed_of_some (hparent.trans hp), scope_add_of_ne s parent ha,
        scope_add_of_ne s parent (Nat.ne_of_lt (Nat.lt_trans hlt hold))]
      exact ⟨hlt, hrest⟩

theorem Sound.addTopLevel (h : t.Sound) (name : String) :
    (t.add (.topLevel name) none).2.Sound := by
  refine h.add ((placed_of_none (parent?_add t _ none)).2 ?_)
  rw [scope_add]
  exact ⟨rfl, rfl, rfl⟩

theorem Sound.addFunction (h : t.Sound) (name : String) (hp : p < t.nodes.size) :
    (t.add (.function name) (some p)).2.Sound := by
  refine h.add ((placed_of_some (parent?_add t _ (some p))).2 ?_)
  rw [scope_add]
  exact ⟨hp, rfl, fun e he => absurd he (Array.not_mem_empty e)⟩

/-! ### Declaring -/

/-- A function without a slot left does not change. -/
theorem declare_of_none {s' : Scope} (h : s.declare name = (none, s')) :
    s' = s ∧ s.locals.position? name = none ∧ Scope.slotLimit ≤ s.locals.size := by
  unfold Scope.declare at h
  split at h
  · cases h
  · split at h
    · cases h
    · rename_i hnew
      dsimp only at h
      split at h
      · cases h
      · rename_i hfull
        cases h
        exact ⟨rfl, hnew, Nat.le_of_not_lt hfull⟩

theorem extends_declare (s : Scope) (name : String) :
    s.Extends (s.declare name).2 ∧ (s.declare name).2.captured = s.captured ∧
      (s.kind = .topLevel → (s.declare name).2.locals = s.locals) := by
  rcases hdeclare : s.declare name with ⟨symbol, s'⟩
  cases symbol with
  | some symbol =>
    obtain ⟨hext, -, hcaptured, hlocals⟩ := Scope.declare_spec hdeclare
    exact ⟨hext, hcaptured, hlocals⟩
  | none =>
    obtain ⟨rfl, -⟩ := declare_of_none hdeclare
    exact ⟨.refl _, rfl, fun _ => rfl⟩

theorem extends_scope_declare (hid : id < t.nodes.size) (name : String) (a : Nat) :
    (t.scope a).Extends ((t.declare id name).2.scope a) := by
  by_cases ha : id = a
  · subst ha
    rw [scope_declare hid]
    exact (extends_declare _ name).1
  · rw [scope_declare_of_ne ha]
    exact .refl _

theorem grows_declare (hid : id < t.nodes.size) (name : String) :
    Grows t (t.declare id name).2 where
  size := Nat.le_of_eq (size_declare t id name).symm
  parent a _ := parent?_declare t id name a
  scope a _ := extends_scope_declare hid name a

theorem Sound.declare (h : t.Sound) (hid : id < t.nodes.size) (name : String) :
    (t.declare id name).2.Sound := by
  refine h.of_changes (parent?_declare t id name) (extends_scope_declare hid name) fun a => ?_
  by_cases ha : id = a
  · subst ha
    right
    obtain ⟨hext, hcaptured, hlocals⟩ := extends_declare (t.scope id) name
    have hparent := parent?_declare t id name id
    cases hp : t.parent? id with
    | none =>
      obtain ⟨hkind, hempty, hnone⟩ := (placed_of_none hp).1 (h id)
      rw [placed_of_none (hparent.trans hp), scope_declare hid]
      exact ⟨hext.kind.trans hkind, (hlocals hkind).trans hempty, hcaptured.trans hnone⟩
    | some p =>
      obtain ⟨hlt, hkind, hfeeds⟩ := (placed_of_some hp).1 (h id)
      rw [placed_of_some (hparent.trans hp), scope_declare hid,
        scope_declare_of_ne (Nat.ne_of_gt hlt)]
      refine ⟨hlt, hext.kind.trans hkind, fun e he => ?_⟩
      rw [hcaptured] at he
      exact hfeeds e he
  · exact .inl (scope_declare_of_ne ha name)

/-! ### Resolving -/

/-- Puts scopes in the places of others. -/
def setScopes (t : ScopeTree) (ids : List Nat) (scopes : List Scope) : ScopeTree :=
  (ids.zip scopes).foldl (fun t e => t.setScope e.1 e.2) t

theorem resolve_eq (t : ScopeTree) (id : Nat) (name : String) :
    t.resolve id name = ((Scope.resolve name ((t.chain id).map t.scope)).1,
      t.setScopes (t.chain id) (Scope.resolve name ((t.chain id).map t.scope)).2) := rfl

theorem setScopes_spec {ids : List Nat} {scopes : List Scope} (hnodup : ids.Nodup)
    (hids : ∀ a ∈ ids, a < t.nodes.size) (hlength : scopes.length = ids.length) :
    (t.setScopes ids scopes).nodes.size = t.nodes.size ∧
      (∀ a, (t.setScopes ids scopes).parent? a = t.parent? a) ∧
      (∀ a, a ∉ ids → (t.setScopes ids scopes).scope a = t.scope a) ∧
      ids.map (t.setScopes ids scopes).scope = scopes := by
  induction ids generalizing t scopes with
  | nil =>
    obtain rfl := List.length_eq_zero_iff.1 hlength
    exact ⟨rfl, fun _ => rfl, fun _ _ => rfl, rfl⟩
  | cons id ids ih =>
    obtain ⟨s, scopes, rfl⟩ := List.exists_cons_of_length_eq_add_one hlength
    obtain ⟨hid, hnodup⟩ := List.nodup_cons.1 hnodup
    obtain ⟨hidlt, hids⟩ := List.forall_mem_cons.1 hids
    obtain ⟨hsize, hparent, hother, hscopes⟩ := ih (t := t.setScope id s) hnodup
      (by rwa [size_setScope]) (Nat.succ.inj hlength)
    change (ScopeTree.setScopes _ ids scopes).nodes.size = _ ∧ _
    refine ⟨hsize.trans (size_setScope t id s), fun a => ?_, fun a ha => ?_, ?_⟩
    · exact (hparent a).trans (parent?_setScope t id s a)
    · rw [List.mem_cons, not_or] at ha
      exact (hother a ha.2).trans (scope_setScope_of_ne (Ne.symm ha.1) s)
    · rw [List.map_cons]
      exact congrArg₂ List.cons ((hother id hid).trans (scope_setScope hidlt s)) hscopes

theorem setScopes_self (t : ScopeTree) (ids : List Nat) :
    t.setScopes ids (ids.map t.scope) = t := by
  induction ids with
  | nil => rfl
  | cons id ids ih =>
    rw [setScopes, List.map_cons, List.zip_cons_cons, List.foldl_cons, setScope_self]
    exact ih

/-- What resolving a name does to a tree: functions capture more, and nothing else changes. -/
structure Resolved (t : ScopeTree) (id : Nat) (name : String) (t' : ScopeTree) : Prop where
  sound : t'.Sound
  size : t'.nodes.size = t.nodes.size
  parent : ∀ a, t'.parent? a = t.parent? a
  growth : ∀ a, (t.scope a).Extends (t'.scope a)
  captures : ∀ a, (t.scope a).Captures (t'.scope a)
  chain : (t'.chain id).map t'.scope = (Scope.resolve name ((t.chain id).map t.scope)).2

theorem Sound.resolve (h : t.Sound) (hid : id < t.nodes.size) (name : String) :
    t.Resolved id name (t.resolve id name).2 := by
  obtain ⟨hnested, hext, -⟩ := Scope.resolve_spec name (h.nested id)
  have hcaptures := Scope.resolve_captures name ((t.chain id).map t.scope)
  have hids : ∀ a ∈ t.chain id, a < t.nodes.size := fun a ha =>
    Nat.lt_of_le_of_lt (h.descends.le_of_around (h.descends.mem_chain_iff.1 ha)) hid
  have hlength := (List.Forall₂.length_eq hext).symm.trans (List.length_map _)
  obtain ⟨hsize, hparent, hother, hscopes⟩ :=
    setScopes_spec (h.descends.nodup_chain id) hids hlength
  rw [resolve_eq]
  generalize hresult : (Scope.resolve name ((t.chain id).map t.scope)).2 = scopes at *
  generalize t.setScopes (t.chain id) scopes = t' at *
  have hchain : t'.chain id = t.chain id := chain_congr h.descends fun a _ => hparent a
  have hdown : t'.Descends := fun a p hp => h.descends a p ((hparent a).symm.trans hp)
  rw [← hscopes, List.forall₂_map_left_iff, List.forall₂_map_right_iff, List.forall₂_same]
    at hext hcaptures
  have hall : ∀ a, (t.scope a).Extends (t'.scope a) := fun a => by
    by_cases ha : a ∈ t.chain id
    · exact hext a ha
    · rw [hother a ha]
      exact .refl _
  refine ⟨h.of_changes hparent hall fun a => ?_, hsize, hparent, hall, fun a => ?_, ?_⟩
  -- the scopes that have changed are those around the one where the name is resolved
  · by_cases ha : a ∈ t.chain id
    · rw [← hscopes, ← hchain, hdown.nested_chain_iff] at hnested
      exact .inr (hnested a (hchain ▸ ha))
    · exact .inl (hother a ha)
  · by_cases ha : a ∈ t.chain id
    · exact hcaptures a ha
    · rw [hother a ha]
      exact .refl _
  · rw [hchain, hscopes, hresult]

theorem Resolved.grows (h : t.Resolved id name t') : Grows t t' :=
  ⟨Nat.le_of_eq h.size.symm, fun a _ => h.parent a, fun a _ => h.growth a⟩

end ScopeTree
end Ember
