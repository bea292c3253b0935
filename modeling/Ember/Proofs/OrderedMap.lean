import Mathlib.Data.List.Perm.Subperm
import Ember.OrderedMap

/-! What storing under a key does to the order of the keys and to their positions. -/
namespace Ember
/-- An array whose entries are kept is not shorter. -/
theorem size_le_of_getElem? {α : Type} {a b : Array α}
    (h : ∀ (i : Nat) (x : α), a[i]? = some x → b[i]? = some x) : a.size ≤ b.size := by
  by_cases ha : a.size = 0
  · omega
  · have hlast := h (a.size - 1) _ (Array.getElem?_eq_getElem (by omega))
    have := (Array.getElem?_eq_some_iff.1 hlast).1
    omega

theorem getElem?_push_of_some {α : Type} {a : Array α} {i : Nat} {x : α} (h : a[i]? = some x)
    (y : α) : (a.push y)[i]? = some x := by
  have hlt := (Array.getElem?_eq_some_iff.1 h).1
  rw [Array.getElem?_push_lt hlt]
  rwa [Array.getElem?_eq_getElem hlt] at h

theorem mem_of_mem_eraseIdxIfInBounds {α : Type} {a : Array α} {i : Nat} {x : α}
    (h : x ∈ a.eraseIdxIfInBounds i) : x ∈ a := by
  unfold Array.eraseIdxIfInBounds at h
  split at h
  · exact Array.mem_of_mem_eraseIdx h
  · exact h

namespace OrderedMap
set_option autoImplicit false

variable {κ ν : Type} [BEq κ] [Hashable κ]

@[simp] theorem entries_empty : (empty : OrderedMap κ ν).entries = #[] := rfl

@[simp] theorem size_empty : (empty : OrderedMap κ ν).size = 0 := rfl

@[simp] theorem keys_empty : (empty : OrderedMap κ ν).keys = #[] := by simp [keys]

theorem size_keys (m : OrderedMap κ ν) : m.keys.size = m.size := by
  simp [keys, size]

theorem length_toList (m : OrderedMap κ ν) : m.toList.length = m.size := Array.length_toList

theorem toList_keys (m : OrderedMap κ ν) : m.keys.toList = m.toList.map Prod.fst := by
  rw [keys, Array.toList_map, toList]

/-- What is stored after a key is erased was stored before. -/
theorem mem_entries_of_erase {m : OrderedMap κ ν} {k : κ} {e : κ × ν}
    (h : e ∈ (m.erase k).entries) : e ∈ m.entries := by
  unfold erase at h
  split at h
  · exact h
  · exact mem_of_mem_eraseIdxIfInBounds h

variable [LawfulBEq κ]

theorem position?_eq_some_iff {m : OrderedMap κ ν} {k : κ} {i : Nat} :
    m.position? k = some i ↔ m.keys[i]? = some k := by
  rw [position?, m.wf, keys, Array.getElem?_map, Option.map_eq_some_iff]
  constructor
  · rintro ⟨v, hv⟩
    exact ⟨(k, v), hv, rfl⟩
  · rintro ⟨⟨k', v⟩, hv, rfl⟩
    exact ⟨v, hv⟩

theorem position?_lt {m : OrderedMap κ ν} {k : κ} {i : Nat} (h : m.position? k = some i) :
    i < m.size := by
  rw [← size_keys]
  exact (Array.getElem?_eq_some_iff.1 (position?_eq_some_iff.1 h)).1

theorem position?_eq_none_iff {m : OrderedMap κ ν} {k : κ} :
    m.position? k = none ↔ k ∉ m.keys := by
  rw [Option.eq_none_iff_forall_ne_some, Array.mem_iff_getElem?]
  simp only [ne_eq, position?_eq_some_iff, not_exists]

theorem position?_empty (k : κ) : (empty : OrderedMap κ ν).position? k = none := by
  rw [position?_eq_none_iff, keys_empty]
  exact Array.not_mem_empty k

theorem contains_eq_isSome (m : OrderedMap κ ν) (k : κ) :
    m.contains k = (m.position? k).isSome := by
  rw [contains, position?, Std.HashMap.contains_eq_isSome_getElem?]

theorem contains_iff_mem_keys {m : OrderedMap κ ν} {k : κ} : m.contains k = true ↔ k ∈ m.keys := by
  rw [contains_eq_isSome, Array.mem_iff_getElem?, Option.isSome_iff_exists]
  simp only [position?_eq_some_iff]

theorem get?_eq_some_iff {m : OrderedMap κ ν} {k : κ} {v : ν} :
    m.get? k = some v ↔ ∃ i : Nat, m.entries[i]? = some (k, v) := by
  rw [get?]
  constructor
  · intro h
    split at h
    · rename_i i hi
      obtain ⟨w, hw⟩ := (m.wf k i).1 hi
      rw [hw] at h
      cases h
      exact ⟨i, hw⟩
    · cases h
  · rintro ⟨i, hi⟩
    rw [(m.wf k i).2 ⟨v, hi⟩]
    simp [hi]

theorem mem_entries_of_get? {m : OrderedMap κ ν} {k : κ} {v : ν} (h : m.get? k = some v) :
    (k, v) ∈ m.entries := by
  obtain ⟨i, hi⟩ := get?_eq_some_iff.1 h
  exact Array.mem_of_getElem? hi

theorem get?_eq_some_of_mem {m : OrderedMap κ ν} {k : κ} {v : ν} (h : (k, v) ∈ m.entries) :
    m.get? k = some v :=
  get?_eq_some_iff.2 (Array.mem_iff_getElem?.1 h)

theorem position?_of_getElem? {m : OrderedMap κ ν} {i : Nat} {k : κ} {v : ν}
    (h : m.entries[i]? = some (k, v)) : m.position? k = some i := by
  rw [position?_eq_some_iff, keys, Array.getElem?_map, h]
  rfl

theorem entries_insert_of_none {m : OrderedMap κ ν} {k : κ} (h : m.position? k = none) (v : ν) :
    (m.insert k v).entries = m.entries.push (k, v) := by
  rw [insert]
  split
  · rename_i i hi
    rw [position?, hi] at h
    cases h
  · rfl

theorem entries_insert_of_some {m : OrderedMap κ ν} {k : κ} {i : Nat}
    (h : m.position? k = some i) (v : ν) :
    (m.insert k v).entries = m.entries.setIfInBounds i (k, v) := by
  rw [insert]
  split
  · rename_i j hj
    rw [position?, hj] at h
    cases h
    rfl
  · rename_i hj
    rw [position?, hj] at h
    cases h

theorem size_insert_of_none {m : OrderedMap κ ν} {k : κ} (h : m.position? k = none) (v : ν) :
    (m.insert k v).size = m.size + 1 := by
  rw [size, entries_insert_of_none h, Array.size_push, size]

theorem keys_insert_of_none {m : OrderedMap κ ν} {k : κ} (h : m.position? k = none) (v : ν) :
    (m.insert k v).keys = m.keys.push k := by
  rw [keys, entries_insert_of_none h, Array.map_push, keys]

theorem keys_insert_of_some {m : OrderedMap κ ν} {k : κ} {i : Nat}
    (h : m.position? k = some i) (v : ν) : (m.insert k v).keys = m.keys := by
  rw [keys, entries_insert_of_some h, keys]
  have hk := position?_eq_some_iff.1 h
  rw [keys, Array.getElem?_map] at hk
  refine Array.ext_getElem? fun j => ?_
  rw [Array.getElem?_map, Array.getElem?_map, Array.getElem?_setIfInBounds]
  by_cases hj : i = j
  · subst hj
    rw [if_pos rfl, hk]
    split
    · rfl
    · rename_i hsize
      rw [Array.getElem?_eq_none (Nat.le_of_not_lt hsize)] at hk
      cases hk
  · rw [if_neg hj]

theorem size_insert_le (m : OrderedMap κ ν) (k : κ) (v : ν) : (m.insert k v).size ≤ m.size + 1 := by
  cases h : m.position? k with
  | none => exact Nat.le_of_eq (size_insert_of_none h v)
  | some i =>
    rw [← size_keys, keys_insert_of_some h, size_keys]
    exact Nat.le_succ _

theorem mem_keys_insert {m : OrderedMap κ ν} {k k' : κ} {v : ν} :
    k' ∈ (m.insert k v).keys ↔ k' ∈ m.keys ∨ k' = k := by
  cases h : m.position? k with
  | none => rw [keys_insert_of_none h, Array.mem_push]
  | some i =>
    rw [keys_insert_of_some h]
    constructor
    · exact Or.inl
    · rintro (hk | rfl)
      · exact hk
      · exact Array.mem_of_getElem? (position?_eq_some_iff.1 h)

/-- What is stored after storing under a key was stored before, or is what was stored. -/
theorem mem_entries_insert {m : OrderedMap κ ν} {k : κ} {v : ν} {e : κ × ν}
    (h : e ∈ (m.insert k v).entries) : e ∈ m.entries ∨ e = (k, v) := by
  cases hk : m.position? k with
  | none =>
    rw [entries_insert_of_none hk, Array.mem_push] at h
    exact h
  | some i =>
    rw [entries_insert_of_some hk] at h
    exact (Array.mem_or_eq_of_mem_setIfInBounds h)

theorem get?_insert_self (m : OrderedMap κ ν) (k : κ) (v : ν) : (m.insert k v).get? k = some v := by
  refine get?_eq_some_of_mem ?_
  cases hk : m.position? k with
  | none =>
    rw [entries_insert_of_none hk]
    exact Array.mem_push_self
  | some i =>
    rw [entries_insert_of_some hk]
    exact Array.mem_setIfInBounds (position?_lt hk)

theorem get?_insert_of_ne {m : OrderedMap κ ν} {k k' : κ} (v : ν) (h : k' ≠ k) :
    (m.insert k v).get? k' = m.get? k' := by
  have hmem : ∀ w, (k', w) ∈ (m.insert k v).entries ↔ (k', w) ∈ m.entries := by
    intro w
    constructor
    · intro hw
      rcases mem_entries_insert hw with hw | hw
      · exact hw
      · exact absurd (congrArg Prod.fst hw) h
    · intro hw
      obtain ⟨j, hj⟩ := Array.mem_iff_getElem?.1 hw
      refine Array.mem_iff_getElem?.2 ⟨j, ?_⟩
      cases hk : m.position? k with
      | none =>
        rw [entries_insert_of_none hk]
        exact getElem?_push_of_some hj _
      | some i =>
        rw [entries_insert_of_some hk, Array.getElem?_setIfInBounds]
        split
        · rename_i hij
          subst hij
          have hki := position?_eq_some_iff.1 hk
          rw [keys, Array.getElem?_map, hj] at hki
          exact absurd (Option.some.inj hki) h
        · exact hj
  have heq : ∀ w, (m.insert k v).get? k' = some w ↔ m.get? k' = some w := by
    intro w
    rw [get?_eq_some_iff, get?_eq_some_iff, ← Array.mem_iff_getElem?, ← Array.mem_iff_getElem?,
      hmem]
  exact Option.ext heq

theorem contains_iff_get? {m : OrderedMap κ ν} {k : κ} :
    m.contains k = true ↔ ∃ v, m.get? k = some v := by
  rw [contains_iff_mem_keys, keys, Array.mem_map]
  constructor
  · rintro ⟨⟨_, v⟩, he, rfl⟩
    exact ⟨v, get?_eq_some_of_mem he⟩
  · rintro ⟨v, hv⟩
    exact ⟨(k, v), mem_entries_of_get? hv, rfl⟩

theorem get?_eq_none_iff {m : OrderedMap κ ν} {k : κ} : m.get? k = none ↔ k ∉ m.keys := by
  rw [← contains_iff_mem_keys, contains_iff_get?, not_exists, Option.eq_none_iff_forall_ne_some]

/-- The entries are told by the keys and what is under them. -/
theorem entries_eq_map_keys (m : OrderedMap κ ν) (default : ν) :
    m.entries = m.keys.map fun k => (k, (m.get? k).getD default) := by
  have hself : ∀ e ∈ m.entries, (e.1, (m.get? e.1).getD default) = e := fun e he => by
    rw [get?_eq_some_of_mem he, Option.getD_some]
  rw [keys, Array.map_map]
  exact ((Array.map_congr_left hself).trans (Array.map_id' m.entries)).symm

/-! What is left when a key is erased. -/

/-- An entry stands between those before it and those after it. -/
theorem exists_split_of_get? {m : OrderedMap κ ν} {k : κ} {v : ν} (h : m.get? k = some v) :
    ∃ before after, m.toList = before ++ (k, v) :: after :=
  List.append_of_mem (Array.mem_toList_iff.2 (mem_entries_of_get? h))

theorem position?_of_split {m : OrderedMap κ ν} {before after : List (κ × ν)} {k : κ} {v : ν}
    (h : m.toList = before ++ (k, v) :: after) : m.position? k = some before.length := by
  refine position?_of_getElem? (v := v) ?_
  rw [← Array.getElem?_toList, show m.entries.toList = m.toList from rfl, h,
    List.getElem?_append_right (Nat.le_refl _), Nat.sub_self]
  rfl

/-- Erasing a key that is there closes the gap. -/
theorem toList_erase_of_split {m : OrderedMap κ ν} {before after : List (κ × ν)} {k : κ} {v : ν}
    (h : m.toList = before ++ (k, v) :: after) : (m.erase k).toList = before ++ after := by
  have hk : m.index[k]? = some before.length := position?_of_split h
  have herase : (m.erase k).entries = m.entries.eraseIdxIfInBounds before.length := by
    unfold erase
    split
    · rename_i hnone
      rw [hk] at hnone
      cases hnone
    · rename_i i hi
      cases hk.symm.trans hi
      rfl
  rw [toList, herase, Array.toList_eraseIdxIfInBounds, show m.entries.toList = m.toList from rfl, h,
    List.eraseIdx_append_of_length_le (Nat.le_refl _), Nat.sub_self]
  rfl

theorem erase_of_get?_eq_none {m : OrderedMap κ ν} {k : κ} (h : m.get? k = none) :
    m.erase k = m := by
  unfold erase
  split
  · rfl
  · rename_i i hi
    obtain ⟨v, hv⟩ := (m.wf k i).1 hi
    rw [get?_eq_some_iff.2 ⟨i, hv⟩] at h
    cases h

theorem mem_entries_erase {m : OrderedMap κ ν} {k : κ} {e : κ × ν} :
    e ∈ (m.erase k).entries ↔ e ∈ m.entries ∧ e.1 ≠ k := by
  cases h : m.get? k with
  | none =>
    rw [erase_of_get?_eq_none h]
    refine ⟨fun he => ⟨he, fun heq => ?_⟩, And.left⟩
    subst heq
    rw [get?_eq_some_of_mem he] at h
    cases h
  | some v =>
    obtain ⟨before, after, hsplit⟩ := exists_split_of_get? h
    have hdistinct := m.distinct
    rw [show m.entries.toList = m.toList from rfl, hsplit, List.map_append, List.map_cons,
      List.perm_middle.nodup_iff, List.nodup_cons, ← List.map_append] at hdistinct
    have herase : (m.erase k).entries.toList = before ++ after := toList_erase_of_split hsplit
    have hentries : m.entries.toList = before ++ (k, v) :: after := hsplit
    rw [← Array.mem_toList_iff, ← Array.mem_toList_iff, herase, hentries, List.mem_append,
      List.mem_append, List.mem_cons]
    constructor
    · intro he
      refine ⟨he.imp_right .inr, fun heq => hdistinct.1 ?_⟩
      exact List.mem_map.2 ⟨e, List.mem_append.2 he, heq⟩
    · rintro ⟨he | rfl | he, hne⟩
      · exact .inl he
      · exact absurd rfl hne
      · exact .inr he

theorem get?_erase_self (m : OrderedMap κ ν) (k : κ) : (m.erase k).get? k = none := by
  refine Option.eq_none_iff_forall_ne_some.2 fun v hv => ?_
  exact (mem_entries_erase.1 (mem_entries_of_get? hv)).2 rfl

theorem get?_erase_of_ne {m : OrderedMap κ ν} {k k' : κ} (h : k' ≠ k) :
    (m.erase k).get? k' = m.get? k' := by
  refine Option.ext fun v => ?_
  rw [get?_eq_some_iff, get?_eq_some_iff, ← Array.mem_iff_getElem?, ← Array.mem_iff_getElem?,
    mem_entries_erase]
  exact and_iff_left h

theorem mem_keys_erase {m : OrderedMap κ ν} {k k' : κ} :
    k' ∈ (m.erase k).keys ↔ k' ∈ m.keys ∧ k' ≠ k := by
  simp only [keys, Array.mem_map, mem_entries_erase]
  constructor
  · rintro ⟨e, ⟨he, hne⟩, rfl⟩
    exact ⟨⟨e, he, rfl⟩, hne⟩
  · rintro ⟨⟨e, he, rfl⟩, hne⟩
    exact ⟨e, ⟨he, hne⟩, rfl⟩

/-- Erasing a key keeps the order of the rest. -/
theorem keys_erase_sublist (m : OrderedMap κ ν) (k : κ) :
    (m.erase k).keys.toList.Sublist m.keys.toList := by
  cases h : m.get? k with
  | none => rw [erase_of_get?_eq_none h]
  | some v =>
    obtain ⟨before, after, hsplit⟩ := exists_split_of_get? h
    rw [toList_keys, toList_keys, toList_erase_of_split hsplit, hsplit]
    exact ((List.sublist_cons_self _ _).append_left before).map Prod.fst

omit [LawfulBEq κ] in
theorem nodup_keys (m : OrderedMap κ ν) : m.keys.toList.Nodup := by
  rw [toList_keys]
  exact m.distinct

/-- Maps have the same keys if they are of the same size and the keys of one are among those of the
other. -/
theorem contains_eq_iff {m m' : OrderedMap κ ν} :
    (∀ k, m.contains k = m'.contains k) ↔
      m.size = m'.size ∧ ∀ k ∈ m.keys, m'.contains k = true := by
  have hlength : ∀ m : OrderedMap κ ν, m.keys.toList.length = m.size := fun m => by
    rw [Array.length_toList, size_keys]
  constructor
  · intro h
    refine ⟨?_, fun k hk => (h k).symm.trans (contains_iff_mem_keys.2 hk)⟩
    have hperm : m.keys.toList.Perm m'.keys.toList :=
      (List.perm_ext_iff_of_nodup m.nodup_keys m'.nodup_keys).2 fun k => by
        rw [Array.mem_toList_iff, Array.mem_toList_iff, ← contains_iff_mem_keys,
          ← contains_iff_mem_keys, h k]
    rw [← hlength m, ← hlength m', hperm.length_eq]
  · rintro ⟨hsize, hsub⟩ k
    have hsubset : m.keys.toList ⊆ m'.keys.toList := fun k hk =>
      Array.mem_toList_iff.2 (contains_iff_mem_keys.1 (hsub k (Array.mem_toList_iff.1 hk)))
    have hperm : m.keys.toList.Perm m'.keys.toList :=
      (m.nodup_keys.subperm hsubset).perm_of_length_le
        (Nat.le_of_eq (by rw [hlength, hlength, hsize]))
    rw [Bool.eq_iff_iff, contains_iff_mem_keys, contains_iff_mem_keys, ← Array.mem_toList_iff,
      ← Array.mem_toList_iff, hperm.mem_iff]

theorem toList_ofList {l : List (κ × ν)} (h : (l.map Prod.fst).Nodup) : (ofList l).toList = l := by
  have hadded : ∀ (m : OrderedMap κ ν) (l : List (κ × ν)),
      ((m.toList ++ l).map Prod.fst).Nodup →
      (l.foldl (fun m e => m.insert e.1 e.2) m).toList = m.toList ++ l := by
    intro m l hl
    induction l generalizing m with
    | nil => rw [List.foldl_nil, List.append_nil]
    | cons e l ih =>
      have hnew : m.position? e.1 = none := by
        rw [position?_eq_none_iff]
        intro hmem
        rw [List.map_append, List.map_cons] at hl
        refine (List.nodup_append.1 hl).2.2 e.1 ?_ e.1 List.mem_cons_self rfl
        rwa [← Array.mem_toList_iff, toList_keys] at hmem
      have hinsert : (m.insert e.1 e.2).toList = m.toList ++ [e] := by
        rw [toList, entries_insert_of_none hnew, Array.toList_push]
        rfl
      rw [List.foldl_cons, ih _ (by rw [hinsert, List.append_assoc]; exact hl), hinsert,
        List.append_assoc]
      rfl
  exact hadded empty l h

/-! What is left of entries stored one after the other. -/

theorem mem_keys_foldl_insert {l : List (κ × ν)} {k : κ} (m : OrderedMap κ ν) :
    k ∈ (l.foldl (fun m e => m.insert e.1 e.2) m).keys ↔ k ∈ m.keys ∨ k ∈ l.map Prod.fst := by
  induction l generalizing m with
  | nil => simp
  | cons e l ih =>
    rw [List.foldl_cons, ih, mem_keys_insert, List.map_cons, List.mem_cons, or_assoc]

theorem mem_keys_ofList {l : List (κ × ν)} {k : κ} : k ∈ (ofList l).keys ↔ k ∈ l.map Prod.fst := by
  rw [ofList, mem_keys_foldl_insert, keys_empty]
  simp

theorem get?_foldl_insert_of_not_mem {l : List (κ × ν)} {k : κ} (m : OrderedMap κ ν)
    (h : k ∉ l.map Prod.fst) : (l.foldl (fun m e => m.insert e.1 e.2) m).get? k = m.get? k := by
  induction l generalizing m with
  | nil => rfl
  | cons e l ih =>
    rw [List.map_cons, List.mem_cons, not_or] at h
    rw [List.foldl_cons, ih _ h.2, get?_insert_of_ne _ h.1]

/-- Of the entries with one key the last one counts. -/
theorem get?_ofList {before after : List (κ × ν)} {k : κ} {v : ν} (h : k ∉ after.map Prod.fst) :
    (ofList (before ++ (k, v) :: after)).get? k = some v := by
  rw [ofList, List.foldl_append, List.foldl_cons, get?_foldl_insert_of_not_mem _ h,
    get?_insert_self]

/-- No entry is lost just if their keys are different. -/
theorem size_ofList_eq_iff {l : List (κ × ν)} :
    (ofList l).size = l.length ↔ (l.map Prod.fst).Nodup := by
  constructor
  · intro hsize
    have hsubset : (ofList l).keys.toList ⊆ l.map Prod.fst := fun k hk =>
      mem_keys_ofList.1 (Array.mem_toList_iff.1 hk)
    have hlength : (l.map Prod.fst).length = (ofList l).keys.toList.length := by
      rw [List.length_map, ← hsize, ← size_keys, Array.length_toList]
    have hperm : (ofList l).keys.toList.Perm (l.map Prod.fst) :=
      ((nodup_keys _).subperm hsubset).perm_of_length_le (Nat.le_of_eq hlength)
    exact hperm.nodup_iff.1 (nodup_keys _)
  · intro h
    rw [← length_toList, toList_ofList h]

end OrderedMap
end Ember
