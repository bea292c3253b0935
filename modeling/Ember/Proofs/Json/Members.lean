import Mathlib
import Ember.Proofs.Json.Encoding

/-! What is left of a map in its document. The names of members are the texts of keys, and the last
entry of each name counts: a map keeps all its entries just if none of its keys is the text of
another one. -/
namespace Ember
set_option autoImplicit false

namespace Json

/-! ## Names -/

theorem toInt?_nameOfKey_int (n : Int64) : (nameOfKey (.int n)).toInt? = some n.toInt := by
  rw [nameOfKey, Int.toString_eq_repr, Int.toInt?_repr]

theorem toInt?_nameOfKey_nil : (nameOfKey .nil).toInt? = none := by cbv

theorem toInt?_nameOfKey_bool (b : Bool) : (nameOfKey (.bool b)).toInt? = none := by
  cases b <;> cbv

/-- Keys that are no texts have different names. -/
theorem eq_of_nameOfKey_eq {k k' : Key} (hk : ∀ s, k ≠ .str s) (hk' : ∀ s, k' ≠ .str s)
    (hname : nameOfKey k = nameOfKey k') : k = k' := by
  have hint := congrArg String.toInt? hname
  cases k with
  | str s => exact absurd rfl (hk s)
  | nil =>
    cases k' with
    | str s => exact absurd rfl (hk' s)
    | nil => rfl
    | bool b => cases b <;> exact absurd hname (by decide)
    | int n =>
      rw [toInt?_nameOfKey_nil, toInt?_nameOfKey_int] at hint
      cases hint
  | bool b =>
    cases k' with
    | str s => exact absurd rfl (hk' s)
    | nil => cases b <;> exact absurd hname (by decide)
    | bool b' => cases b <;> cases b' <;> first | rfl | exact absurd hname (by decide)
    | int n =>
      rw [toInt?_nameOfKey_bool, toInt?_nameOfKey_int] at hint
      cases hint
  | int n =>
    rw [toInt?_nameOfKey_int] at hint
    cases k' with
    | str s => exact absurd rfl (hk' s)
    | nil =>
      rw [toInt?_nameOfKey_nil] at hint
      cases hint
    | bool b =>
      rw [toInt?_nameOfKey_bool] at hint
      cases hint
    | int n' =>
      rw [toInt?_nameOfKey_int] at hint
      rw [Int64.toInt_inj.1 (Option.some.inj hint)]

/-- Different keys have one name just if one of them is the text of the other. -/
theorem nameOfKey_eq_iff {k k' : Key} : nameOfKey k = nameOfKey k' ↔
    k = k' ∨ k = .str (nameOfKey k') ∨ k' = .str (nameOfKey k) := by
  constructor
  · intro hname
    by_cases hk : ∃ s, k = .str s
    · obtain ⟨s, rfl⟩ := hk
      exact .inr (.inl (congrArg Key.str hname))
    · by_cases hk' : ∃ s, k' = .str s
      · obtain ⟨s, rfl⟩ := hk'
        exact .inr (.inr (congrArg Key.str hname.symm))
      · exact .inl (eq_of_nameOfKey_eq (not_exists.1 hk) (not_exists.1 hk') hname)
  · rintro (rfl | hk | hk')
    · rfl
    · rw [hk, nameOfKey]
    · rw [hk', nameOfKey]

/-- No key is the text of another one. -/
def Unambiguous (m : OrderedMap Key Value) : Prop :=
  ∀ k ∈ m.keys, .str (nameOfKey k) ∈ m.keys → k = .str (nameOfKey k)

theorem unambiguous_iff {m : OrderedMap Key Value} :
    Unambiguous m ↔ (m.keys.toList.map nameOfKey).Nodup := by
  rw [List.nodup_map_iff_inj_on m.nodup_keys]
  simp only [Array.mem_toList_iff]
  constructor
  · intro hm k hk k' hk' hname
    rcases nameOfKey_eq_iff.1 hname with heq | heq | heq
    · exact heq
    · exact (hm k' hk' (heq ▸ hk) ▸ heq)
    · exact (hm k hk (heq ▸ hk')).trans heq.symm
  · exact fun hm k hk hk' => hm k hk _ hk' rfl

/-! ## Members -/

variable {h : Heap} {r : MapRef} {j : Json}

/-- The members of a document are made of those of all entries, one after the other. -/
theorem of_ofValue_map (hj : ofValue h (.map r) = .ok j) : ∃ members : List (String × Json),
    List.Forall₂ (fun m (e : Key × Value) => m.1 = nameOfKey e.1 ∧ ofValue h e.2 = .ok m.2)
      members (h.map r).toList ∧ j = .object (OrderedMap.ofList members).toList := by
  have hroom := room_start (Nat.lt_succ_self (h.lists.size + h.maps.size))
  rw [ofValue_eq_iterate, Function.iterate_succ_apply', ofValueWith_map (List.not_mem_nil)] at hj
  obtain ⟨found, hfound, rfl⟩ := of_map_ok hj
  obtain ⟨members, hmembers, rfl⟩ := of_membersOf_ok hfound
  refine ⟨members, hmembers.imp fun m e he => ⟨he.1, ?_⟩, rfl⟩
  rw [ofValue_eq_iterate]
  have hinside := room_inside hroom (v := .map r) rfl (List.not_mem_nil)
    (List.mem_map_of_mem he.2.1)
  exact iterate_mono hinside hroom (List.nil_subset _) he.2.2

theorem exists_of_forall₂_append {α β : Type} {R : α → β → Prop} {as : List α} {before : List β}
    {b : β} {after : List β} (hall : List.Forall₂ R as (before ++ b :: after)) :
    ∃ as₁ a as₂, as = as₁ ++ a :: as₂ ∧ R a b ∧ List.Forall₂ R as₂ after := by
  have hrest := List.forall₂_drop_append as before _ hall
  cases hdrop : as.drop before.length with
  | nil =>
    rw [hdrop] at hrest
    cases hrest
  | cons a as₂ =>
    rw [hdrop] at hrest
    obtain ⟨ha, has⟩ := List.forall₂_cons.1 hrest
    exact ⟨as.take before.length, a, as₂, by rw [← hdrop, List.take_append_drop], ha, has⟩

/-- The document of a map has a member for each name of a key, with the document of the last entry
of that name. It has as many members as there are entries just if no key is the text of another one,
and then they stand for the entries in their order. -/
theorem members_of_map (h : Heap) (r : MapRef) (j : Json) (hj : ofValue h (.map r) = .ok j) :
    ∃ members, j = .object members ∧ (members.map Prod.fst).Nodup ∧
      (∀ name, name ∈ members.map Prod.fst ↔ ∃ k ∈ (h.map r).keys, nameOfKey k = name) ∧
      (∀ before k w after, (h.map r).toList = before ++ (k, w) :: after →
        (∀ e ∈ after, nameOfKey e.1 ≠ nameOfKey k) →
          ∃ item, ofValue h w = .ok item ∧ (nameOfKey k, item) ∈ members) ∧
      (members.length = (h.map r).size ↔ Unambiguous (h.map r)) ∧
      (Unambiguous (h.map r) → List.Forall₂
        (fun m (e : Key × Value) => m.1 = nameOfKey e.1 ∧ ofValue h e.2 = .ok m.2)
        members (h.map r).toList) := by
  obtain ⟨found, hfound, rfl⟩ := of_ofValue_map hj
  have hnames : found.map Prod.fst = (h.map r).keys.toList.map nameOfKey := by
    rw [OrderedMap.toList_keys, List.map_map]
    exact map_eq_of_forall₂ (hfound.imp fun _ _ he => he.1)
  have hlength : found.length = (h.map r).size := by
    rw [hfound.length_eq, OrderedMap.length_toList]
  refine ⟨_, rfl, (OrderedMap.ofList found).distinct, fun name => ?_, ?_, ?_, fun hm => ?_⟩
  · rw [← OrderedMap.toList_keys, Array.mem_toList_iff, OrderedMap.mem_keys_ofList, hnames,
      List.mem_map]
    simp only [Array.mem_toList_iff]
  · intro before k w after hentries hlast
    rw [hentries] at hfound
    obtain ⟨before', ⟨_, item⟩, after', rfl, ⟨rfl, hitem⟩, hafter⟩ :=
      exists_of_forall₂_append hfound
    have hnew : nameOfKey k ∉ after'.map Prod.fst := by
      rw [map_eq_of_forall₂ (hafter.imp fun _ _ he => he.1)]
      intro hmem
      obtain ⟨e, he, hname⟩ := List.mem_map.1 hmem
      exact hlast e he hname
    exact ⟨item, hitem, Array.mem_toList_iff.2
      (OrderedMap.mem_entries_of_get? (OrderedMap.get?_ofList hnew))⟩
  · rw [unambiguous_iff, ← hnames, ← OrderedMap.size_ofList_eq_iff, hlength,
      OrderedMap.length_toList]
  · rw [unambiguous_iff, ← hnames] at hm
    rwa [OrderedMap.toList_ofList hm]

end Json

/-- A map in which a number and its text are keys, and one that holds it beside another entry. -/
def homonyms : Heap :=
  ⟨#[], #[.ofList [(.int 1, .str "a"), (.str "1", .str "b")],
    .ofList [(.nil, .map ⟨0⟩), (.int 1, .bool true)]], #[], #[], 5⟩

theorem toList_homonyms : (homonyms.map ⟨0⟩).toList = [(.int 1, .str "a"), (.str "1", .str "b")] :=
  OrderedMap.toList_ofList (by decide)

theorem toList_homonyms_around :
    (homonyms.map ⟨1⟩).toList = [(.nil, .map ⟨0⟩), (.int 1, .bool true)] :=
  OrderedMap.toList_ofList (by decide)

theorem toList_ofList_twice {κ ν : Type} [BEq κ] [Hashable κ] [LawfulBEq κ] (k : κ) (v w : ν) :
    (OrderedMap.ofList [(k, v), (k, w)]).toList = [(k, w)] := by
  have hfirst : ((OrderedMap.empty : OrderedMap κ ν).insert k v).entries = #[(k, v)] :=
    OrderedMap.entries_insert_of_none (OrderedMap.position?_empty k) v
  have hplace : ((OrderedMap.empty : OrderedMap κ ν).insert k v).position? k = some 0 := by
    refine OrderedMap.position?_of_getElem? (v := v) ?_
    rw [hfirst]
    rfl
  have hentries : (OrderedMap.ofList [(k, v), (k, w)]).entries = #[(k, w)] := by
    refine (OrderedMap.entries_insert_of_some hplace w).trans ?_
    rw [hfirst]
    rfl
  rw [OrderedMap.toList, hentries]

theorem ofValueWithin_homonyms (steps : Nat) (opened : List Container)
    (hnew : Container.map ⟨0⟩ ∉ opened) :
    Json.ofValueWithin homonyms (steps + 1) opened (.map ⟨0⟩) =
      .ok (.object [("1", .string "b")]) := by
  have hvalue : ∀ s, Json.ofValueWithin homonyms steps (.map ⟨0⟩ :: opened) (.str s) =
      .ok (.string s) := by
    cases steps <;> exact fun s => rfl
  have hmembers : List.Forall₂ (fun m (e : Key × Value) => m.1 = Json.nameOfKey e.1 ∧
      Json.ofValueWithin homonyms steps (.map ⟨0⟩ :: opened) e.2 = .ok m.2)
      [("1", .string "a"), ("1", .string "b")] (homonyms.map ⟨0⟩).toList := by
    rw [toList_homonyms]
    exact .cons ⟨by decide, hvalue "a"⟩ (.cons ⟨rfl, hvalue "b"⟩ .nil)
  rw [Json.ofValueWithin, Json.ofValueWith_map hnew, Json.membersOf_ok .empty hmembers]
  exact congrArg (fun ms => Except.ok (Json.object ms)) (toList_ofList_twice "1" _ _)

/-- The entry of the number is lost: both keys have the name "1". -/
theorem entry_lost_among_homonyms : ∃ members,
    Json.ofValue homonyms (.map ⟨0⟩) = .ok (.object members) ∧
    members.length < (homonyms.map ⟨0⟩).size ∧
    (.int 1, .str "a") ∈ (homonyms.map ⟨0⟩).toList ∧
    (Json.nameOfKey (.int 1), .string "a") ∉ members := by
  refine ⟨_, ofValueWithin_homonyms 1 [] List.not_mem_nil, ?_, ?_, ?_⟩
  · rw [← OrderedMap.length_toList, toList_homonyms]
    decide
  · rw [toList_homonyms]
    exact List.mem_cons_self
  · intro hmem
    obtain ⟨-, hitem⟩ := Prod.mk.inj (List.mem_singleton.1 hmem)
    exact absurd (Json.string.inj hitem) (by decide)

theorem unambiguous_homonyms_around : Json.Unambiguous (homonyms.map ⟨1⟩) := by
  rw [Json.unambiguous_iff, OrderedMap.toList_keys, toList_homonyms_around]
  decide

/-- The map around the other one keeps both entries. -/
theorem members_of_map_homonyms : ∃ members,
    Json.ofValue homonyms (.map ⟨1⟩) = .ok (.object members) ∧ members.length = 2 := by
  have hmembers : List.Forall₂ (fun m (e : Key × Value) => m.1 = Json.nameOfKey e.1 ∧
      Json.ofValueWithin homonyms 1 [.map ⟨1⟩] e.2 = .ok m.2)
      [("nil", .object [("1", .string "b")]), ("1", .bool true)] (homonyms.map ⟨1⟩).toList := by
    rw [toList_homonyms_around]
    exact .cons ⟨rfl, ofValueWithin_homonyms 0 _ (by decide)⟩ (.cons ⟨by decide, rfl⟩ .nil)
  have hdocument : Json.ofValue homonyms (.map ⟨1⟩) = .ok (.object
      [("nil", .object [("1", .string "b")]), ("1", .bool true)]) := by
    refine (Json.ofValueWith_map List.not_mem_nil).trans ?_
    rw [Json.membersOf_ok .empty hmembers]
    exact congrArg (fun ms => Except.ok (Json.object ms)) (OrderedMap.toList_ofList (by decide))
  obtain ⟨members, hobject, -, -, -, hlength, -⟩ := Json.members_of_map homonyms ⟨1⟩ _ hdocument
  refine ⟨members, hobject ▸ hdocument, ?_⟩
  rw [hlength.2 unambiguous_homonyms_around, ← OrderedMap.length_toList, toList_homonyms_around]
  rfl

end Ember
