import Mathlib.Data.List.Induction
import Mathlib.Data.Nat.Find
import Ember.Proofs.OrderedMap

/-! Histories of ordered maps. What a map holds after some stores and removals is told from these
alone: under a key the value of the last store, unless the key was removed after it; and the keys in
the order of the stores from which on they have been there. -/
namespace Ember
set_option autoImplicit false

/-! ## Events -/

/-- Something that happens to a key of a map. -/
inductive Event (κ ν : Type)
  | store (k : κ) (v : ν)
  | remove (k : κ)

namespace Event

variable {κ ν : Type}

def key : Event κ ν → κ
  | store k _ | remove k => k

def stored? : Event κ ν → Option ν
  | store _ v => some v
  | remove _ => none

end Event

section
variable {κ ν : Type}

/-- The value of the last store under a key, if the key has not been removed since. -/
def lastStored? [DecidableEq κ] (events : List (Event κ ν)) (k : κ) : Option ν :=
  (events.reverse.find? fun e => e.key = k).bind Event.stored?

/-- The first store under a key since it was last removed is the one at place `i`, and the key has
not been removed since. -/
structure StoredFrom (events : List (Event κ ν)) (k : κ) (i : Nat) : Prop where
  stored : ∃ v, events[i]? = some (.store k v)
  first : ∀ j < i, (∃ v, events[j]? = some (.store k v)) →
    ∃ l, j < l ∧ l < i ∧ events[l]? = some (.remove k)
  kept : ∀ l, i < l → events[l]? ≠ some (.remove k)

end

namespace OrderedMap

variable {κ ν : Type} [BEq κ] [Hashable κ] [LawfulBEq κ]

def meet (m : OrderedMap κ ν) : Event κ ν → OrderedMap κ ν
  | .store k v => m.insert k v
  | .remove k => m.erase k

/-- What a map holds after the events. -/
def ofEvents (events : List (Event κ ν)) : OrderedMap κ ν := events.foldl meet empty

theorem ofEvents_concat (events : List (Event κ ν)) (e : Event κ ν) :
    ofEvents (events ++ [e]) = (ofEvents events).meet e := by
  rw [ofEvents, List.foldl_append]
  rfl

end OrderedMap

/-! ## Values -/

section
variable {κ ν : Type} [DecidableEq κ] {events : List (Event κ ν)} {k : κ}

theorem lastStored?_concat_self (events : List (Event κ ν)) (e : Event κ ν) :
    lastStored? (events ++ [e]) e.key = e.stored? := by
  rw [lastStored?, List.reverse_append, List.reverse_singleton, List.singleton_append,
    List.find?_cons_of_pos (by simp)]
  rfl

theorem lastStored?_concat_of_ne {e : Event κ ν} (h : e.key ≠ k) :
    lastStored? (events ++ [e]) k = lastStored? events k := by
  rw [lastStored?, List.reverse_append, List.reverse_singleton, List.singleton_append,
    List.find?_cons_of_neg (by simpa using h)]
  rfl

variable [Hashable κ]

/-- Under a key a map holds what was last stored there, unless it was removed after that. -/
theorem OrderedMap.get?_ofEvents (events : List (Event κ ν)) (k : κ) :
    (ofEvents events).get? k = lastStored? events k := by
  induction events using List.reverseRecOn with
  | nil => exact get?_eq_none_iff.2 (by simp [ofEvents])
  | append_singleton events e ih =>
    rw [ofEvents_concat]
    by_cases hk : e.key = k
    · subst hk
      rw [lastStored?_concat_self]
      cases e with
      | store k v => exact get?_insert_self _ _ _
      | remove k => exact get?_erase_self _ _
    · rw [lastStored?_concat_of_ne hk, ← ih]
      cases e with
      | store k' v => exact get?_insert_of_ne v (Ne.symm hk)
      | remove k' => exact get?_erase_of_ne (Ne.symm hk)

end

/-! ## Order -/

section
variable {κ ν : Type} {events : List (Event κ ν)} {e : Event κ ν} {k : κ} {i : Nat}

theorem StoredFrom.lt_length (h : StoredFrom events k i) : i < events.length := by
  obtain ⟨v, hv⟩ := h.stored
  exact (List.getElem?_eq_some_iff.1 hv).1

/-- Of the stores after which a key was not removed, the first one is that from which on the key has
been there. -/
theorem exists_storedFrom {v : ν} (hstored : events[i]? = some (.store k v))
    (hkept : ∀ l, i < l → events[l]? ≠ some (.remove k)) : ∃ j, StoredFrom events k j := by
  classical
  let Stays := fun j : Nat => (∃ v, events[j]? = some (Event.store k v)) ∧
    ∀ l, j < l → events[l]? ≠ some (Event.remove k)
  have hstays : ∃ j, Stays j := ⟨i, ⟨v, hstored⟩, hkept⟩
  obtain ⟨hfound, hfree⟩ := Nat.find_spec hstays
  refine ⟨Nat.find hstays, hfound, fun j hj hv => ?_, hfree⟩
  -- an earlier store that stays would have been found
  have hnot := Nat.find_min hstays hj
  obtain ⟨l, hjl, hremoved⟩ : ∃ l, j < l ∧ events[l]? = some (.remove k) := by
    by_contra hnone
    exact hnot ⟨hv, fun l hjl hremoved => hnone ⟨l, hjl, hremoved⟩⟩
  refine ⟨l, hjl, Nat.lt_of_not_le fun hle => ?_, hremoved⟩
  rcases Nat.eq_or_lt_of_le hle with heq | hlt
  · obtain ⟨w, hw⟩ := hfound
    rw [heq, hremoved] at hw
    cases hw
  · exact hfree l hlt hremoved

/-- One more event leaves those before it where they are. -/
theorem getElem?_concat_of_lt (e : Event κ ν) (h : i < events.length) :
    (events ++ [e])[i]? = events[i]? := List.getElem?_append_left h

theorem storedFrom_concat_of_lt (hi : i < events.length) :
    StoredFrom (events ++ [e]) k i ↔ StoredFrom events k i ∧ e ≠ .remove k := by
  constructor
  · intro h
    refine ⟨⟨?_, fun j hj hv => ?_, fun l hl hremoved => ?_⟩, ?_⟩
    · obtain ⟨v, hv⟩ := h.stored
      exact ⟨v, by rwa [getElem?_concat_of_lt e hi] at hv⟩
    · obtain ⟨v, hv⟩ := hv
      rw [← getElem?_concat_of_lt e (Nat.lt_trans hj hi)] at hv
      obtain ⟨l, hjl, hli, hl⟩ := h.first j hj ⟨v, hv⟩
      exact ⟨l, hjl, hli, by rwa [getElem?_concat_of_lt e (Nat.lt_trans hli hi)] at hl⟩
    · have hlt := (List.getElem?_eq_some_iff.1 hremoved).1
      exact h.kept l hl (by rwa [getElem?_concat_of_lt e hlt])
    · rintro rfl
      exact h.kept events.length hi List.getElem?_concat_length
  · rintro ⟨h, he⟩
    refine ⟨?_, fun j hj hv => ?_, fun l hl hremoved => ?_⟩
    · obtain ⟨v, hv⟩ := h.stored
      exact ⟨v, by rwa [getElem?_concat_of_lt e hi]⟩
    · obtain ⟨v, hv⟩ := hv
      rw [getElem?_concat_of_lt e (Nat.lt_trans hj hi)] at hv
      obtain ⟨l, hjl, hli, hl⟩ := h.first j hj ⟨v, hv⟩
      exact ⟨l, hjl, hli, by rwa [getElem?_concat_of_lt e (Nat.lt_trans hli hi)]⟩
    · rcases Nat.lt_trichotomy l events.length with hlt | rfl | hlt
      · exact h.kept l hl (by rwa [getElem?_concat_of_lt e hlt] at hremoved)
      · rw [List.getElem?_concat_length] at hremoved
        exact he (Option.some.inj hremoved)
      · rw [List.getElem?_eq_none (by rw [List.length_append, List.length_singleton]; omega)]
          at hremoved
        cases hremoved

/-- A store makes its key a new one just if the key was not there before. -/
theorem storedFrom_concat_length :
    StoredFrom (events ++ [e]) k events.length ↔
      (∃ v, e = .store k v) ∧ ∀ j, ¬ StoredFrom events k j := by
  constructor
  · intro h
    obtain ⟨v, hv⟩ := h.stored
    rw [List.getElem?_concat_length] at hv
    refine ⟨⟨v, Option.some.inj hv⟩, fun j hj => ?_⟩
    obtain ⟨w, hw⟩ := hj.stored
    obtain ⟨l, hjl, hl, hremoved⟩ :=
      h.first j hj.lt_length ⟨w, by rwa [getElem?_concat_of_lt e hj.lt_length]⟩
    exact hj.kept l hjl (by rwa [getElem?_concat_of_lt e hl] at hremoved)
  · rintro ⟨⟨v, rfl⟩, hnew⟩
    refine ⟨⟨v, List.getElem?_concat_length⟩, fun j hj hw => ?_, fun l hl hremoved => ?_⟩
    · obtain ⟨w, hw⟩ := hw
      rw [getElem?_concat_of_lt _ hj] at hw
      obtain ⟨l, hjl, hremoved⟩ : ∃ l, j < l ∧ events[l]? = some (.remove k) := by
        by_contra hnone
        obtain ⟨i, hi⟩ := exists_storedFrom hw fun l hjl hremoved => hnone ⟨l, hjl, hremoved⟩
        exact hnew i hi
      have hl := (List.getElem?_eq_some_iff.1 hremoved).1
      exact ⟨l, hjl, hl, by rwa [getElem?_concat_of_lt _ hl]⟩
    · rw [List.getElem?_eq_none (by rw [List.length_append, List.length_singleton]; omega)]
        at hremoved
      cases hremoved

theorem StoredFrom.lt_or_eq (h : StoredFrom (events ++ [e]) k i) :
    i < events.length ∨ i = events.length := by
  have := h.lt_length
  rw [List.length_append, List.length_singleton] at this
  omega

/-- One more event does not change since when a key has been there. -/
theorem StoredFrom.of_concat (h : StoredFrom (events ++ [e]) k i)
    (hold : ∃ j, StoredFrom events k j) : StoredFrom events k i := by
  rcases h.lt_or_eq with hlt | rfl
  · exact ((storedFrom_concat_of_lt hlt).1 h).1
  · obtain ⟨j, hj⟩ := hold
    exact absurd hj ((storedFrom_concat_length.1 h).2 j)

theorem exists_storedFrom_concat :
    (∃ i, StoredFrom (events ++ [e]) k i) ↔
      (∃ v, e = .store k v) ∨ ((∃ i, StoredFrom events k i) ∧ e ≠ .remove k) := by
  constructor
  · rintro ⟨i, hi⟩
    rcases hi.lt_or_eq with hlt | rfl
    · obtain ⟨hold, hkept⟩ := (storedFrom_concat_of_lt hlt).1 hi
      exact .inr ⟨⟨i, hold⟩, hkept⟩
    · exact .inl (storedFrom_concat_length.1 hi).1
  · have hold : ∀ i, StoredFrom events k i → e ≠ .remove k →
        ∃ i, StoredFrom (events ++ [e]) k i := fun i hi hkept =>
      ⟨i, (storedFrom_concat_of_lt hi.lt_length).2 ⟨hi, hkept⟩⟩
    rintro (⟨v, rfl⟩ | ⟨⟨i, hi⟩, hkept⟩)
    · by_cases hpresent : ∃ i, StoredFrom events k i
      · obtain ⟨i, hi⟩ := hpresent
        exact hold i hi (by rintro ⟨⟩)
      · exact ⟨_, storedFrom_concat_length.2 ⟨⟨v, rfl⟩, fun j hj => hpresent ⟨j, hj⟩⟩⟩
    · exact hold i hi hkept

end

/-- The first of two keys has been there for longer. -/
def StoredBefore {κ ν : Type} (events : List (Event κ ν)) (a b : κ) : Prop :=
  ∀ i j, StoredFrom events a i → StoredFrom events b j → i < j

namespace OrderedMap

variable {κ ν : Type} [DecidableEq κ] [Hashable κ]

theorem mem_keys_meet {m : OrderedMap κ ν} {e : Event κ ν} {k : κ} :
    k ∈ (m.meet e).keys ↔ (∃ v, e = .store k v) ∨ (k ∈ m.keys ∧ e ≠ .remove k) := by
  cases e with
  | store k' v =>
    rw [meet, mem_keys_insert, or_comm]
    simp [eq_comm]
  | remove k' =>
    rw [meet, mem_keys_erase]
    simp [eq_comm]

/-- The keys of a map are those from whose stores some store has them there. -/
theorem mem_keys_ofEvents (events : List (Event κ ν)) (k : κ) :
    k ∈ (ofEvents events).keys ↔ ∃ i, StoredFrom events k i := by
  induction events using List.reverseRecOn with
  | nil =>
    refine iff_of_false (by simp [ofEvents]) ?_
    rintro ⟨i, hi⟩
    exact absurd hi.lt_length (Nat.not_lt_zero i)
  | append_singleton events e ih =>
    rw [ofEvents_concat, mem_keys_meet, ih, exists_storedFrom_concat]

/-- The keys of a map stand in the order of the stores from which on they have been there. -/
theorem pairwise_keys_ofEvents (events : List (Event κ ν)) :
    (ofEvents events).keys.toList.Pairwise (StoredBefore events) := by
  induction events using List.reverseRecOn with
  | nil => simp [ofEvents]
  | append_singleton events e ih =>
    have hpresent : ∀ {a}, a ∈ (ofEvents events).keys.toList → ∃ i, StoredFrom events a i :=
      fun ha => (mem_keys_ofEvents events _).1 (Array.mem_toList_iff.1 ha)
    have hold : (ofEvents events).keys.toList.Pairwise (StoredBefore (events ++ [e])) :=
      ih.imp_of_mem fun ha hb hab i j hi hj =>
        hab i j (hi.of_concat (hpresent ha)) (hj.of_concat (hpresent hb))
    rw [ofEvents_concat]
    cases e with
    | remove k => exact hold.sublist (keys_erase_sublist _ k)
    | store k v =>
      cases hk : (ofEvents events).position? k with
      | some i => rwa [meet, keys_insert_of_some hk]
      | none =>
        rw [meet, keys_insert_of_none hk, Array.toList_push, List.pairwise_append]
        refine ⟨hold, List.pairwise_singleton _ _, fun a ha b hb i j hi hj => ?_⟩
        obtain rfl : b = k := List.mem_singleton.1 hb
        have hnew : ∀ j, ¬ StoredFrom events b j := fun j hj =>
          position?_eq_none_iff.1 hk ((mem_keys_ofEvents events b).2 ⟨j, hj⟩)
        have hi := (hi.of_concat (hpresent ha)).lt_length
        rcases hj.lt_or_eq with hlt | rfl
        · exact absurd ((storedFrom_concat_of_lt hlt).1 hj).1 (hnew j)
        · exact hi

end OrderedMap
end Ember
