import Std.Data.HashMap

/-! Maps that keep their keys in the order in which they were first stored. Storing under a present
key replaces the value in place; removing a key closes the gap and keeps the order of the rest. -/
namespace Ember
set_option autoImplicit false

/-! ## Positions -/

/-- A key that was not there yet comes last. -/
theorem getElem?_concat_of_not_mem {κ : Type} {keys : List κ} {last : κ} (h : last ∉ keys) (k : κ)
    (i : Nat) :
    (keys ++ [last])[i]? = some k ↔
      (last = k ∧ keys.length = i) ∨ (last ≠ k ∧ keys[i]? = some k) := by
  rw [List.getElem?_append, List.getElem?_singleton]
  by_cases hi : i < keys.length
  · rw [if_pos hi]
    constructor
    · rintro hk
      refine .inr ⟨?_, hk⟩
      rintro rfl
      exact h (List.mem_of_getElem? hk)
    · rintro (⟨-, rfl⟩ | ⟨-, hk⟩)
      · exact absurd hi (Nat.lt_irrefl _)
      · exact hk
  · rw [if_neg hi, List.getElem?_eq_none (Nat.le_of_not_lt hi)]
    by_cases heq : i = keys.length
    · simp [heq]
    · rw [if_neg (by omega)]
      simp [Ne.symm heq]

section
variable {κ : Type} [BEq κ] [Hashable κ]

/-- The position of each key. -/
def positionsOf (keys : List κ) : Std.HashMap κ Nat :=
  keys.zipIdx.foldl (fun index e => index.insert e.1 e.2) ∅

theorem positionsOf_concat (keys : List κ) (k : κ) :
    positionsOf (keys ++ [k]) = (positionsOf keys).insert k keys.length := by
  simp [positionsOf, List.zipIdx_append]

theorem getElem?_positionsOf [LawfulBEq κ] {keys : List κ} (h : keys.Nodup) (k : κ) (i : Nat) :
    (positionsOf keys)[k]? = some i ↔ keys[i]? = some k := by
  -- keys are added at the end
  generalize hrev : keys.reverse = rev
  induction rev generalizing keys with
  | nil =>
    rw [List.reverse_eq_nil_iff.1 hrev]
    simp [positionsOf]
  | cons last rev ih =>
    obtain rfl : keys = rev.reverse ++ [last] := by simpa using congrArg List.reverse hrev
    obtain ⟨hfront, -, hlast⟩ := List.nodup_append.1 h
    have hnew : last ∉ rev.reverse := fun hmem => hlast last hmem last (by simp) rfl
    rw [positionsOf_concat, Std.HashMap.getElem?_insert, getElem?_concat_of_not_mem hnew,
      ← ih hfront (List.reverse_reverse rev)]
    by_cases hk : last = k
    · simp [hk]
    · simp [hk]

end

/-! ## Maps -/

/-- The entries in order, and the position of each key. -/
structure OrderedMap (κ ν : Type) [BEq κ] [Hashable κ] where
  entries : Array (κ × ν)
  index : Std.HashMap κ Nat
  distinct : (entries.toList.map Prod.fst).Nodup
  indexed : index = positionsOf (entries.toList.map Prod.fst)

namespace OrderedMap

variable {κ ν : Type} [BEq κ] [Hashable κ]

def empty : OrderedMap κ ν where
  entries := #[]
  index := ∅
  distinct := .nil
  indexed := rfl

instance : Inhabited (OrderedMap κ ν) := ⟨empty⟩

instance : EmptyCollection (OrderedMap κ ν) := ⟨empty⟩

def size (m : OrderedMap κ ν) : Nat := m.entries.size

def isEmpty (m : OrderedMap κ ν) : Bool := m.entries.isEmpty

def position? (m : OrderedMap κ ν) (k : κ) : Option Nat := m.index[k]?

def get? (m : OrderedMap κ ν) (k : κ) : Option ν :=
  match m.index[k]? with
  | some i => (m.entries[i]?).map Prod.snd
  | none => none

def contains (m : OrderedMap κ ν) (k : κ) : Bool := m.index.contains k

def keys (m : OrderedMap κ ν) : Array κ := m.entries.map Prod.fst

def values (m : OrderedMap κ ν) : Array ν := m.entries.map Prod.snd

def toList (m : OrderedMap κ ν) : List (κ × ν) := m.entries.toList

/-- A map is given by its entries. -/
theorem ext {m m' : OrderedMap κ ν} (h : m.entries = m'.entries) : m = m' := by
  obtain ⟨entries, index, distinct, indexed⟩ := m
  obtain ⟨entries', index', distinct', indexed'⟩ := m'
  obtain rfl : entries = entries' := h
  obtain rfl : index = index' := indexed.trans indexed'.symm
  rfl

variable [LawfulBEq κ]

/-- The index gives each key its position and nothing else. -/
theorem wf (m : OrderedMap κ ν) (k : κ) (i : Nat) :
    m.index[k]? = some i ↔ ∃ v, m.entries[i]? = some (k, v) := by
  rw [m.indexed, getElem?_positionsOf m.distinct, List.getElem?_map, Option.map_eq_some_iff,
    Array.getElem?_toList]
  constructor
  · rintro ⟨⟨k', v⟩, hv, rfl⟩
    exact ⟨v, hv⟩
  · rintro ⟨v, hv⟩
    exact ⟨(k, v), hv, rfl⟩

theorem keys_set {m : OrderedMap κ ν} {k : κ} {i : Nat} (h : m.index[k]? = some i) (v : ν) :
    (m.entries.setIfInBounds i (k, v)).toList.map Prod.fst = m.entries.toList.map Prod.fst := by
  rw [m.indexed, getElem?_positionsOf m.distinct] at h
  obtain ⟨hi, rfl⟩ := List.getElem?_eq_some_iff.1 h
  rw [Array.toList_setIfInBounds, List.map_set, List.set_getElem_self]

theorem not_mem_keys {m : OrderedMap κ ν} {k : κ} (h : m.index[k]? = none) :
    k ∉ m.entries.toList.map Prod.fst := by
  intro hk
  obtain ⟨i, hi⟩ := List.mem_iff_getElem?.1 hk
  rw [← getElem?_positionsOf m.distinct, ← m.indexed, h] at hi
  cases hi

/-- Replaces the value in place if the key is present, and adds an entry at the end otherwise. -/
def insert (m : OrderedMap κ ν) (k : κ) (v : ν) : OrderedMap κ ν :=
  match h : m.index[k]? with
  | some i =>
    { entries := m.entries.setIfInBounds i (k, v)
      index := m.index
      distinct := by rw [keys_set h]; exact m.distinct
      indexed := by rw [keys_set h]; exact m.indexed }
  | none =>
    let position := m.entries.size
    { entries := m.entries.push (k, v)
      index := m.index.insert k position
      distinct := by
        rw [Array.toList_push, List.map_append]
        refine List.nodup_append.2 ⟨m.distinct, by simp, fun a ha b hb hab => ?_⟩
        obtain rfl : a = k := hab.trans (List.mem_singleton.1 hb)
        exact not_mem_keys h ha
      indexed := by
        rw [Array.toList_push, List.map_append, List.map_singleton, positionsOf_concat,
          List.length_map, Array.length_toList, ← m.indexed] }

/-- Some of the entries, in order. -/
def keep (m : OrderedMap κ ν) (entries : Array (κ × ν))
    (h : entries.toList.Sublist m.entries.toList) : OrderedMap κ ν where
  entries := entries
  index := positionsOf (entries.toList.map Prod.fst)
  distinct := m.distinct.sublist (h.map Prod.fst)
  indexed := rfl

/-- Removes the entry of a key, if there is one. -/
def erase (m : OrderedMap κ ν) (k : κ) : OrderedMap κ ν :=
  match m.index[k]? with
  | none => m
  | some i => m.keep (m.entries.eraseIdxIfInBounds i) (by
      rw [Array.toList_eraseIdxIfInBounds]
      exact List.eraseIdx_sublist _ _)

/-- The entries stored one after the other. -/
def ofList (l : List (κ × ν)) : OrderedMap κ ν :=
  l.foldl (fun m e => m.insert e.1 e.2) empty

/-- The first `n` entries. -/
def take (m : OrderedMap κ ν) (n : Nat) : OrderedMap κ ν :=
  m.keep (m.entries.take n) (by simpa using List.take_sublist n _)

end OrderedMap

end Ember
