import Ember.Proofs.Compile.Branches
import Ember.Proofs.Scope

/-! Code that is being compiled. The draft of a state is the function whose code is being written,
with the tables that it has so far; they only grow. A state is ready if its scopes are nested and
every function among its constants was compiled: such a function has code that flows, and captures
only what the function around it has. -/
namespace Ember
set_option autoImplicit false

/-! ## Compiled functions -/

namespace Routine

/-- The function has a variable of this name where the capture says. -/
def Holds (f : Routine Value) (name : String) : Capture → Prop
  | .slot i => f.scope.slots[i]? = some name
  | .free i => i < f.freeVariables.size ∧ (f.freeVariables.size ≤ Scope.slotLimit →
      (f.freeVariables[i]?).map FreeVariable.name = some name)

/-- Every variable that `g` captures is one of the function around it. -/
def Feeds (f g : Routine Value) : Prop := ∀ v ∈ g.freeVariables, f.Holds v.name v.capture

theorem Holds.mono {f g : Routine Value} {name : String} {c : Capture} (hfg : Extends f g)
    (h : f.Holds name c) : g.Holds name c := by
  cases c with
  | slot i => exact hfg.slots i name h
  | free i =>
    obtain ⟨hlt, hname⟩ := h
    have hsize := size_le_of_getElem? hfg.free
    refine ⟨Nat.lt_of_lt_of_le hlt hsize, fun hlimit => ?_⟩
    obtain ⟨v, hv, hvname⟩ := Option.map_eq_some_iff.1 (hname (Nat.le_trans hsize hlimit))
    exact Option.map_eq_some_iff.2 ⟨v, hfg.free i v hv, hvname⟩

theorem Feeds.mono {f f' g : Routine Value} (h : Feeds f g) (hext : Extends f f') : Feeds f' g :=
  fun v hv => (h v hv).mono hext

end Routine

/-- A stretch of code that flows by itself from an empty stack. -/
structure Planned (f : Routine Value) (start : Nat) (row : List Instruction) (p : Plan) :
    Prop where
  bytes : HasBytes f.code start (rowBytes row)
  items : p.items = row.map Item.op
  flows : p.Flows f none
  entry : p.shapeAt none 0 = some (.values 0)

/-- What a program can have as a constant. -/
def Value.isConstant : Value → Bool
  | .int _ | .float _ | .str _ | .function _ => true
  | _ => false

/-- Functions that were compiled, with the functions in them. -/
inductive Compiled : Routine Value → Prop
  | intro {g : Routine Value} {row : List Instruction} {p : Plan}
      (hkind : g.scope.kind = .function) (hslots : g.scope.slots.size = g.localCount)
      (hfree : g.freeVariables.size < Scope.slotLimit)
      (hplan : Planned g 0 row p) (hsize : g.code.size = rowSize row)
      (hconstant : ∀ v ∈ g.constants, v.isConstant = true)
      (hfeeds : ∀ h, Value.function h ∈ g.constants → g.Feeds h)
      (hinner : ∀ h, Value.function h ∈ g.constants → Compiled h) : Compiled g

/-! ## States -/

/-- The function that is being compiled, as far as it has got. -/
def CompileState.draft (s : CompileState) : Routine Value where
  id := 0
  name := ""
  params := #[]
  code := #[]
  constants := s.pools.constants
  names := s.pools.names.keys
  localCount := (s.scopes.headD default).locals.size
  freeVariables := (s.scopes.headD default).freeVariables
  scope := (s.scopes.headD default).summary (s.scopes.drop 1)

/-- All tables of `s` have kept what they had in `s'`. -/
structure Grows (s s' : CompileState) : Prop where
  scopes : List.Forall₂ Scope.Extends s.scopes s'.scopes
  constants : ∀ (i : Nat) (v : Value),
    s.pools.constants[i]? = some v → s'.pools.constants[i]? = some v
  names : ∀ (i : Nat) (n : String),
    s.pools.names.keys[i]? = some n → s'.pools.names.keys[i]? = some n

/-- The invariant of a compilation. -/
structure Ready (s : CompileState) : Prop where
  nested : Scope.Nested s.scopes
  constant : ∀ v ∈ s.pools.constants, v.isConstant = true
  feeds : ∀ g, Value.function g ∈ s.pools.constants → s.draft.Feeds g
  compiled : ∀ g, Value.function g ∈ s.pools.constants → Compiled g
  known : ∀ (key : ConstantKey) (i : Nat), s.pools.known[key]? = some i →
    ∃ v, s.pools.constants[i]? = some v ∧ ConstantKey.ofValue? v = some key

namespace Grows

theorem refl (s : CompileState) : Grows s s :=
  ⟨Scope.forall₂_extends_refl _, fun _ _ h => h, fun _ _ h => h⟩

theorem trans {s s₁ s₂ : CompileState} (h₁ : Grows s s₁) (h₂ : Grows s₁ s₂) : Grows s s₂ where
  scopes := Scope.forall₂_extends_trans h₁.scopes h₂.scopes
  constants i v h := h₂.constants i v (h₁.constants i v h)
  names i n h := h₂.names i n (h₁.names i n h)

/-- Where the scopes have grown and nothing else has changed. -/
theorem of_scopes {s : CompileState} {scopes : List Scope}
    (h : List.Forall₂ Scope.Extends s.scopes scopes) : Grows s { s with scopes } :=
  ⟨h, fun _ _ h => h, fun _ _ h => h⟩

theorem draft {s s' : CompileState} (h : Grows s s') : Routine.Extends s.draft s'.draft := by
  have hhead : Scope.Extends (s.scopes.headD default) (s'.scopes.headD default) := by
    have := h.scopes
    cases hs : s.scopes with
    | nil =>
      rw [hs, List.forall₂_nil_left_iff] at this
      rw [this]
      exact .refl _
    | cons a l =>
      rw [hs] at this
      obtain ⟨b, r, hab, -, hs'⟩ := List.forall₂_cons_left_iff.1 this
      rw [hs']
      exact hab
  refine ⟨hhead.kind, h.constants, size_le_of_getElem? h.names, ?_, hhead.locals, ?_⟩
  · have := size_le_of_getElem? hhead.locals
    rwa [OrderedMap.size_keys, OrderedMap.size_keys] at this
  · intro i v hv
    obtain ⟨e, he, hev⟩ := Option.map_eq_some_iff.1 (Array.getElem?_map.symm.trans hv)
    exact (Array.getElem?_map.trans (Option.map_eq_some_iff.2 ⟨e, hhead.captured i e he, hev⟩))

end Grows

/-- The scope that is being compiled speaks for the draft. -/
theorem Scope.Holds.draft {s : CompileState} {scope : Scope} {outer : List Scope} {name : String}
    {c : Capture} (hs : s.scopes = scope :: outer) (h : scope.Holds name c) :
    s.draft.Holds name c := by
  cases c with
  | slot i =>
    change (s.scopes.headD default).locals.keys[i]? = some name
    rw [hs]
    exact h
  | free i =>
    change i < (s.scopes.headD default).freeVariables.size ∧
      ((s.scopes.headD default).freeVariables.size ≤ slotLimit →
        ((s.scopes.headD default).freeVariables[i]?).map FreeVariable.name = some name)
    rw [hs, List.headD_cons, freeVariables, Array.size_map, Array.getElem?_map, Option.map_map]
    obtain ⟨hlt, hname⟩ := h
    refine ⟨hlt, fun hlimit => ?_⟩
    rw [← hname hlimit, OrderedMap.keys, Array.getElem?_map]
    rfl

end Ember
