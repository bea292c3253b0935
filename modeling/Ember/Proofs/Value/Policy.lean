import Ember.Proofs.OrderedMap
import Ember.Value.Subscript

/-! Which functions, closures and cells a run may come across. A policy allows some of them; a heap
obeys it if it holds only values that do. Operators make no functions, closures or cells, so they
keep within every policy, and they leave all cells alone. -/
namespace Ember
set_option autoImplicit false

/-! ## Policies -/

namespace Value

/-- The value inside of results. -/
def core : Value → Value
  | .result _ _ payload => payload.core
  | v => v

/-- Values that are not functions, closures or cells, and hold none. -/
def isPlain : Value → Bool
  | .function _ | .closure .. | .cell _ | .result .. => false
  | _ => true

end Value

/-- The value tells of malformed code; no operator and no builtin makes such a value. -/
def Value.isCodeError : Value → Bool
  | .error .decode _ => true
  | _ => false

/-- Which values may occur; those without functions, closures and cells always may, if they do not
tell of malformed code. -/
structure Policy where
  allows : Value → Prop
  plain : ∀ v : Value, v.isPlain = true → v.isCodeError = false → allows v

namespace Value

/-- The policy allows the value, or what it holds. -/
def Obeys (P : Policy) (v : Value) : Prop := P.allows v.core

variable {P : Policy}

theorem obeys_of_plain {v : Value} (h : v.isPlain = true)
    (hcode : v.isCodeError = false) : v.Obeys P := by
  cases v <;> first | exact P.plain _ h hcode | cases h

theorem obeys_result {id : Nat} {isOk : Bool} {payload : Value} :
    (result id isOk payload).Obeys P ↔ payload.Obeys P := Iff.rfl

theorem obeys_key (k : Key) : k.toValue.Obeys P := by
  cases k <;> exact obeys_of_plain rfl rfl

end Value

/-- Every value that the heap holds obeys the policy. -/
structure Heap.Obeys (P : Policy) (h : Heap) : Prop where
  lists : ∀ items ∈ h.lists, ∀ v ∈ items, v.Obeys P
  maps : ∀ entries ∈ h.maps, ∀ e ∈ entries.entries, e.2.Obeys P
  cells : ∀ v ∈ h.cells, v.Obeys P

/-- The heap still obeys the policy, and its cells have not changed. -/
structure Heap.Kept (P : Policy) (h h' : Heap) : Prop where
  obeys : h'.Obeys P
  cells : h'.cells = h.cells

namespace Heap

variable {P : Policy} {h h' : Heap}

theorem obeys_empty (P : Policy) : Heap.empty.Obeys P :=
  ⟨fun _ h => absurd h (Array.not_mem_empty _), fun _ h => absurd h (Array.not_mem_empty _),
    fun _ h => absurd h (Array.not_mem_empty _)⟩

theorem Kept.refl (hobeys : h.Obeys P) : Kept P h h := ⟨hobeys, rfl⟩

theorem Kept.trans {h'' : Heap} (h₁ : Kept P h h') (h₂ : Kept P h' h'') : Kept P h h'' :=
  ⟨h₂.obeys, h₂.cells.trans h₁.cells⟩

theorem Obeys.imp {Q : Policy} (hobeys : h.Obeys P) (hPQ : ∀ v : Value, P.allows v → Q.allows v) :
    h.Obeys Q :=
  ⟨fun items hi v hv => hPQ _ (hobeys.lists items hi v hv),
    fun entries hi e he => hPQ _ (hobeys.maps entries hi e he),
    fun v hv => hPQ _ (hobeys.cells v hv)⟩

/-! ## Reading -/

theorem Obeys.list (hobeys : h.Obeys P) (r : ListRef) : ∀ v ∈ h.list r, v.Obeys P := by
  unfold Heap.list
  rw [Array.getD_eq_getD_getElem?]
  cases hr : h.lists[r.index]? with
  | none =>
    intro v hv
    exact absurd hv (Array.not_mem_empty v)
  | some items => exact hobeys.lists items (Array.mem_of_getElem? hr)

theorem Obeys.map (hobeys : h.Obeys P) (r : MapRef) : ∀ e ∈ (h.map r).entries, e.2.Obeys P := by
  unfold Heap.map
  rw [Array.getD_eq_getD_getElem?]
  cases hr : h.maps[r.index]? with
  | none =>
    intro e he
    exact absurd he (Array.not_mem_empty e)
  | some entries => exact hobeys.maps entries (Array.mem_of_getElem? hr)

theorem Obeys.cell (hobeys : h.Obeys P) (c : CellRef) : (h.cell c).Obeys P := by
  unfold Heap.cell
  rw [Array.getD_eq_getD_getElem?]
  cases hc : h.cells[c.index]? with
  | none => exact Value.obeys_of_plain rfl rfl
  | some v => exact hobeys.cells v (Array.mem_of_getElem? hc)

/-! ## Changing -/

theorem Obeys.newList (hobeys : h.Obeys P) {items : Array Value} (hitems : ∀ v ∈ items, v.Obeys P) :
    Kept P h (h.newList items).2 := by
  refine ⟨⟨fun l hl => ?_, hobeys.maps, hobeys.cells⟩, rfl⟩
  rcases Array.mem_push.1 hl with hl | rfl
  · exact hobeys.lists l hl
  · exact hitems

theorem Obeys.newMap (hobeys : h.Obeys P) {entries : OrderedMap Key Value}
    (hentries : ∀ e ∈ entries.entries, e.2.Obeys P) : Kept P h (h.newMap entries).2 := by
  refine ⟨⟨hobeys.lists, fun m hm => ?_, hobeys.cells⟩, rfl⟩
  rcases Array.mem_push.1 hm with hm | rfl
  · exact hobeys.maps m hm
  · exact hentries

theorem Obeys.newSet (hobeys : h.Obeys P) (members : OrderedMap Key Unit) :
    Kept P h (h.newSet members).2 :=
  ⟨⟨hobeys.lists, hobeys.maps, hobeys.cells⟩, rfl⟩

theorem Obeys.newId (hobeys : h.Obeys P) : Kept P h h.newId.2 :=
  ⟨⟨hobeys.lists, hobeys.maps, hobeys.cells⟩, rfl⟩

theorem mem_modify {α : Type} {a : Array α} {i : Nat} {f : α → α} {x : α} (h : x ∈ a.modify i f) :
    x ∈ a ∨ ∃ y ∈ a, x = f y := by
  obtain ⟨k, hk⟩ := Array.mem_iff_getElem?.1 h
  rw [Array.getElem?_modify] at hk
  split at hk
  · obtain ⟨y, hy, rfl⟩ := Option.map_eq_some_iff.1 hk
    exact .inr ⟨y, Array.mem_of_getElem? hy, rfl⟩
  · exact .inl (Array.mem_of_getElem? hk)

theorem Obeys.modifyList (hobeys : h.Obeys P) (r : ListRef) {f : Array Value → Array Value}
    (hf : ∀ items, (∀ v ∈ items, v.Obeys P) → ∀ v ∈ f items, v.Obeys P) :
    Kept P h (h.modifyList r f) := by
  refine ⟨⟨fun l hl => ?_, hobeys.maps, hobeys.cells⟩, rfl⟩
  rcases mem_modify hl with hl | ⟨items, hitems, rfl⟩
  · exact hobeys.lists l hl
  · exact hf items (hobeys.lists items hitems)

theorem Obeys.modifyMap (hobeys : h.Obeys P) (r : MapRef)
    {f : OrderedMap Key Value → OrderedMap Key Value}
    (hf : ∀ entries : OrderedMap Key Value, (∀ e ∈ entries.entries, e.2.Obeys P) →
      ∀ e ∈ (f entries).entries, e.2.Obeys P) : Kept P h (h.modifyMap r f) := by
  refine ⟨⟨hobeys.lists, fun m hm => ?_, hobeys.cells⟩, rfl⟩
  rcases mem_modify hm with hm | ⟨entries, hentries, rfl⟩
  · exact hobeys.maps m hm
  · exact hf entries (hobeys.maps entries hentries)

theorem Obeys.modifySet (hobeys : h.Obeys P) (r : SetRef)
    (f : OrderedMap Key Unit → OrderedMap Key Unit) : Kept P h (h.modifySet r f) :=
  ⟨⟨hobeys.lists, hobeys.maps, hobeys.cells⟩, rfl⟩

theorem Obeys.setCell (hobeys : h.Obeys P) (c : CellRef) {v : Value} (hv : v.Obeys P) :
    (h.setCell c v).Obeys P := by
  refine ⟨hobeys.lists, hobeys.maps, fun w hw => ?_⟩
  rcases Array.mem_or_eq_of_mem_setIfInBounds hw with hw | rfl
  · exact hobeys.cells w hw
  · exact hv

theorem Obeys.newCell (hobeys : h.Obeys P) {v : Value} (hv : v.Obeys P) :
    (h.newCell v).2.Obeys P := by
  refine ⟨hobeys.lists, hobeys.maps, fun w hw => ?_⟩
  rcases Array.mem_push.1 hw with hw | rfl
  · exact hobeys.cells w hw
  · exact hv

end Heap

/-! ## Computations -/

/-- What holds of the value of a computation, or of its failure. -/
def Promises {ε α : Type} (x : Except ε α) (Q : α → Prop) (E : ε → Prop) : Prop :=
  match x with
  | .ok a => Q a
  | .error e => E e

/-- A computation on the heap that keeps within the policy and leaves all cells alone. -/
def Keeps (P : Policy) {ε α : Type} (x : OnHeap ε α) (Q : α → Prop) (E : ε → Prop) : Prop :=
  ∀ h, h.Obeys P → match x h with
    | .ok a h' => h.Kept P h' ∧ Q a
    | .error e h' => h.Kept P h' ∧ E e

namespace Promises

variable {ε α β : Type} {Q : α → Prop} {R : β → Prop} {E : ε → Prop}

theorem bind {x : Except ε α} {k : α → Except ε β} (hx : Promises x Q E)
    (hk : ∀ a, Q a → Promises (k a) R E) : Promises (x >>= k) R E := by
  cases x with
  | error e => exact hx
  | ok a => exact hk a hx

theorem mono {Q' : α → Prop} {x : Except ε α} (hx : Promises x Q E) (hQ : ∀ a, Q a → Q' a) :
    Promises x Q' E := by
  cases x with
  | error e => exact hx
  | ok a => exact hQ a hx

end Promises

namespace Keeps

variable {P : Policy} {ε α β : Type} {Q : α → Prop} {R : β → Prop} {E : ε → Prop}

theorem pure {a : α} (h : Q a) : Keeps P (pure a : OnHeap ε α) Q E :=
  fun _ hobeys => ⟨.refl hobeys, h⟩

theorem throw {e : ε} (h : E e) : Keeps P (throw e : OnHeap ε α) Q E :=
  fun _ hobeys => ⟨.refl hobeys, h⟩

theorem bind {x : OnHeap ε α} {k : α → OnHeap ε β} (hx : Keeps P x Q E)
    (hk : ∀ a, Q a → Keeps P (k a) R E) : Keeps P (x >>= k) R E := by
  intro h hobeys
  have hfirst := hx h hobeys
  show match EStateM.bind x k h with
    | .ok a h' => h.Kept P h' ∧ R a
    | .error e h' => h.Kept P h' ∧ E e
  unfold EStateM.bind
  cases hr : x h with
  | error e h' =>
    rw [hr] at hfirst
    exact hfirst
  | ok a h' =>
    rw [hr] at hfirst
    have hsecond := hk a hfirst.2 h' hfirst.1.obeys
    dsimp only
    cases hs : k a h' with
    | error e h'' =>
      rw [hs] at hsecond
      exact ⟨hfirst.1.trans hsecond.1, hsecond.2⟩
    | ok b h'' =>
      rw [hs] at hsecond
      exact ⟨hfirst.1.trans hsecond.1, hsecond.2⟩

/-- What depends on the heap as it is. -/
theorem get_bind {k : Heap → OnHeap ε β} (hk : ∀ h : Heap, h.Obeys P → Keeps P (k h) R E) :
    Keeps P (get >>= k) R E :=
  fun h hobeys => hk h hobeys h hobeys

theorem modify {f : Heap → Heap} (hf : ∀ h : Heap, h.Obeys P → h.Kept P (f h)) :
    Keeps P (modify f : OnHeap ε Unit) (fun _ => True) E :=
  fun h hobeys => ⟨hf h hobeys, trivial⟩

theorem modifyGet {f : Heap → α × Heap}
    (hf : ∀ h : Heap, h.Obeys P → h.Kept P (f h).2 ∧ Q (f h).1) :
    Keeps P (modifyGet f : OnHeap ε α) Q E :=
  fun h hobeys => hf h hobeys

end Keeps

section
variable {P : Policy} {ε : Type} {E : ε → Prop}

theorem keeps_newList {items : Array Value} (h : ∀ v ∈ items, v.Obeys P) :
    Keeps P (OnHeap.newList items : OnHeap ε Value) (Value.Obeys P) E :=
  .modifyGet fun _ hobeys => ⟨hobeys.newList h, Value.obeys_of_plain rfl rfl⟩

theorem keeps_newMap {entries : OrderedMap Key Value} (h : ∀ e ∈ entries.entries, e.2.Obeys P) :
    Keeps P (OnHeap.newMap entries : OnHeap ε Value) (Value.Obeys P) E :=
  .modifyGet fun _ hobeys => ⟨hobeys.newMap h, Value.obeys_of_plain rfl rfl⟩

theorem keeps_newSet (members : OrderedMap Key Unit) :
    Keeps P (OnHeap.newSet members : OnHeap ε Value) (Value.Obeys P) E :=
  .modifyGet fun _ hobeys => ⟨hobeys.newSet members, Value.obeys_of_plain rfl rfl⟩

theorem keeps_newResult {isOk : Bool} {payload : Value} (h : payload.Obeys P) :
    Keeps P (OnHeap.newResult isOk payload : OnHeap ε Value) (Value.Obeys P) E :=
  .modifyGet fun _ hobeys => ⟨hobeys.newId, h⟩

theorem keeps_newFailure (message : String) :
    Keeps P (OnHeap.newFailure message : OnHeap ε Value) (Value.Obeys P) E :=
  .modifyGet fun _ hobeys => ⟨hobeys.newId, Value.obeys_result.2 (Value.obeys_of_plain rfl rfl)⟩

end

end Ember
