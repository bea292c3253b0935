import Mathlib.Algebra.Ring.Int.Defs
import Mathlib.Algebra.Ring.Nat
import Ember.Builtin.Core
import Ember.Proofs.Text.Search
import Ember.Proofs.Value.Lists

/-! Indices of lists and texts. Subscripts and `delete` find the position that an index means in two
ways, which agree as long as a length is a 64-bit integer. What is read, changed or taken away then
stands between the same items. -/
namespace Ember
set_option autoImplicit false

/-! ## Positions -/

/-- The place that an index means among `n` things: a negative one counts from the end. -/
def placeOf (i : Int64) (n : Nat) : Int := if i.toInt < 0 then i.toInt + n else i.toInt

section
variable {i : Int64} {n : Nat}

/-- A negative index and a length have different signs, so their sum is within 64 bits. -/
theorem toInt_placeOf (hn : n < 2 ^ 63) :
    (if i < 0 then i + Int64.ofNat n else i).toInt = placeOf i n := by
  have hlow := i.le_toInt
  have hlength := Int64.toInt_ofNat_of_lt hn
  rw [placeOf]
  by_cases hi : i.toInt < 0
  · rw [if_pos (Int64.lt_iff_toInt_lt.2 hi), if_pos hi, Int64.toInt_add, hlength]
    exact Int.bmod_eq_of_le (by omega) (by omega)
  · rw [if_neg (mt Int64.lt_iff_toInt_lt.1 hi), if_neg hi]

theorem placeOf_in_range :
    0 ≤ placeOf i n ∧ placeOf i n < n ↔ -(n : Int) ≤ i.toInt ∧ i.toInt < n := by
  rw [placeOf]
  split <;> omega

theorem position?_eq (hn : n < 2 ^ 63) : position? i n =
    if 0 ≤ placeOf i n ∧ placeOf i n < n then some (placeOf i n).toNat else none := by
  rw [← toInt_placeOf hn, position?]
  generalize (if i < 0 then i + Int64.ofNat n else i) = p
  have hp : p.toNatClampNeg = p.toInt.toNat := rfl
  have hneg : p < 0 ↔ p.toInt < 0 := Int64.lt_iff_toInt_lt
  simp only [hp, hneg, Bool.or_eq_true, decide_eq_true_eq]
  by_cases hrange : 0 ≤ p.toInt ∧ p.toInt < n
  · rw [if_pos hrange, if_neg (by omega)]
  · rw [if_neg hrange, if_pos (by omega)]

/-- An index compared with a length as integers is in range just if it is as a position. -/
theorem deletePosition?_eq (hn : n < 2 ^ 63) :
    CoreFunction.deletePosition? i n = position? i n := by
  have hlength := Int64.toInt_ofNat_of_lt hn
  rw [CoreFunction.deletePosition?, position?]
  generalize (if i < 0 then i + Int64.ofNat n else i) = p
  have hp : p.toNatClampNeg = p.toInt.toNat := rfl
  have hneg : p < 0 ↔ p.toInt < 0 := Int64.lt_iff_toInt_lt
  have hlong : Int64.ofNat n ≤ p ↔ (n : Int) ≤ p.toInt := by rw [Int64.le_iff_toInt_le, hlength]
  simp only [hp, hneg, hlong, Bool.or_eq_true, decide_eq_true_eq]
  congr 1
  rw [eq_iff_iff]
  omega

theorem position?_eq_none (hn : n < 2 ^ 63) (hi : ¬ (-(n : Int) ≤ i.toInt ∧ i.toInt < n)) :
    position? i n = none := by
  rw [position?_eq hn, if_neg (mt placeOf_in_range.1 hi)]

end

/-! ## Picks -/

/-- An index picks `x` out of `xs`, where it stands between `before` and `after`. -/
structure Picks {α : Type} (i : Int64) (xs before : List α) (x : α) (after : List α) : Prop where
  parts : xs = before ++ x :: after
  place : (before.length : Int) = placeOf i xs.length

theorem exists_picks {α : Type} {i : Int64} {xs : List α}
    (hi : -(xs.length : Int) ≤ i.toInt ∧ i.toInt < xs.length) :
    ∃ before x after, Picks i xs before x after := by
  obtain ⟨hlow, hhigh⟩ := placeOf_in_range.2 hi
  have hlt : (placeOf i xs.length).toNat < xs.length := by omega
  refine ⟨xs.take (placeOf i xs.length).toNat, xs[(placeOf i xs.length).toNat],
    xs.drop ((placeOf i xs.length).toNat + 1), ?_, ?_⟩
  · rw [List.getElem_cons_drop, List.take_append_drop]
  · rw [List.length_take_of_le (Nat.le_of_lt hlt), Int.toNat_of_nonneg hlow]

namespace Picks

variable {α β : Type} {i : Int64} {xs before after : List α} {x : α}

theorem lt_length (hpick : Picks i xs before x after) : before.length < xs.length := by
  rw [hpick.parts, List.length_append, List.length_cons]
  omega

theorem position? (hpick : Picks i xs before x after) (hn : xs.length < 2 ^ 63) :
    position? i xs.length = some before.length := by
  have hlt := hpick.lt_length
  rw [position?_eq hn, ← hpick.place, if_pos (by omega), Int.toNat_natCast]

theorem getElem? (hpick : Picks i xs before x after) : xs[before.length]? = some x := by
  rw [hpick.parts, List.getElem?_append_right (Nat.le_refl _), Nat.sub_self]
  rfl

theorem set (hpick : Picks i xs before x after) (y : α) :
    xs.set before.length y = before ++ y :: after := by
  rw [hpick.parts, List.set_append_right _ _ (Nat.le_refl _), Nat.sub_self]
  rfl

theorem eraseIdx (hpick : Picks i xs before x after) :
    xs.eraseIdx before.length = before ++ after := by
  rw [hpick.parts, List.eraseIdx_append_of_length_le (Nat.le_refl _), Nat.sub_self]
  rfl

theorem length_replaced (hpick : Picks i xs before x after) (y : α) :
    (before ++ y :: after).length = xs.length := by
  rw [hpick.parts, List.length_append, List.length_append, List.length_cons, List.length_cons]

/-- The index picks what has been put in the place. -/
theorem replaced (hpick : Picks i xs before x after) (y : α) :
    Picks i (before ++ y :: after) before y after :=
  ⟨rfl, by rw [hpick.length_replaced, hpick.place]⟩

theorem map (hpick : Picks i xs before x after) (f : α → β) :
    Picks i (xs.map f) (before.map f) (f x) (after.map f) := by
  refine ⟨?_, ?_⟩
  · rw [hpick.parts, List.map_append, List.map_cons]
  · rw [List.length_map, List.length_map, hpick.place]

end Picks

/-! ## Lists -/

section
variable {h : Heap} {r : ListRef} {i : Int64} {before after : List Value} {old : Value}

theorem Picks.modifyList_set (hpick : Picks i (h.list r).toList before old after) (v : Value) :
    (h.modifyList r fun items => items.setIfInBounds before.length v) =
      h.modifyList r fun _ => (before ++ v :: after).toArray := by
  refine h.modifyList_congr r ?_
  rw [← hpick.set v, ← Array.toList_setIfInBounds, Array.toArray_toList]

theorem Picks.modifyList_erase (hpick : Picks i (h.list r).toList before old after) :
    (h.modifyList r fun items => items.eraseIdxIfInBounds before.length) =
      h.modifyList r fun _ => (before ++ after).toArray := by
  refine h.modifyList_congr r ?_
  rw [← hpick.eraseIdx, ← Array.toList_eraseIdxIfInBounds, Array.toArray_toList]

/-- The list from which an index picks something is there, so it takes on what is put into it. -/
theorem Picks.list_modifyList (hpick : Picks i (h.list r).toList before old after)
    (items : Array Value) : (h.modifyList r fun _ => items).list r = items := by
  refine h.list_modifyList (Heap.index_lt_of_size_pos ?_) _
  exact Nat.lt_of_le_of_lt (Nat.zero_le _) hpick.lt_length

theorem Picks.getD (hpick : Picks i (h.list r).toList before old after) :
    (h.list r).getD before.length .nil = old := by
  rw [Array.getD_eq_getD_getElem?, ← Array.getElem?_toList, hpick.getElem?]
  rfl

theorem Picks.position?_list (hpick : Picks i (h.list r).toList before old after)
    (hn : (h.list r).size < 2 ^ 63) : Ember.position? i (h.list r).size = some before.length :=
  hpick.position? hn

theorem getItem_list (h : Heap) (r : ListRef) (i : Int64) :
    getItem h (.list r) (.int i) = match position? i (h.list r).size with
      | some p => .ok ((h.list r).getD p .nil)
      | none => .error (.indexOutOfBounds i.toInt (h.list r).size) := (rfl)

theorem setItem_list (h : Heap) (r : ListRef) (i : Int64) (v : Value) :
    setItem (.list r) (.int i) v h = match position? i (h.list r).size with
      | some p => .ok () (h.modifyList r fun items => items.setIfInBounds p v)
      | none => .error (.indexOutOfBounds i.toInt (h.list r).size) h := by
  have hset : setItem (.list r) (.int i) v h = (match position? i (h.list r).size with
    | some p => modify fun h => h.modifyList r fun items => items.setIfInBounds p v
    | none => throw (.indexOutOfBounds i.toInt (h.list r).size) : OnHeap Fault Unit) h := rfl
  rw [hset]
  cases position? i (h.list r).size <;> rfl

theorem deleteItem_list (h : Heap) (r : ListRef) (i : Int64) :
    deleteItem (.list r) (.int i) h = match position? i (h.list r).size with
      | some p => .ok () (h.modifyList r fun items => items.eraseIdxIfInBounds p)
      | none => .error (.indexOutOfBounds i.toInt (h.list r).size) h := by
  have hdelete : deleteItem (.list r) (.int i) h = (match position? i (h.list r).size with
    | some p => modify fun h => h.modifyList r fun items => items.eraseIdxIfInBounds p
    | none => throw (.indexOutOfBounds i.toInt (h.list r).size) : OnHeap Fault Unit) h := rfl
  rw [hdelete]
  cases position? i (h.list r).size <;> rfl

theorem CoreFunction.call_delete (h : Heap) (r : ListRef) (i : Int64) :
    delete.call #[.list r, .int i] h = match deletePosition? i (h.list r).size with
      | some p => .ok ((h.list r).getD p .nil)
          (h.modifyList r fun items => items.eraseIdxIfInBounds p)
      | none => .error (.indexOutOfRange i.toInt (h.list r).size) h := by
  have hcall : delete.call #[.list r, .int i] h = removeEntry (.list r) (.int i) h := rfl
  rw [hcall, removeEntry]
  dsimp only [intArgument, bind, EStateM.bind, get, getThe, MonadStateOf.get, EStateM.get]
  cases deletePosition? i (h.list r).size <;> rfl

namespace Picks

theorem getItem_list (hpick : Picks i (h.list r).toList before old after)
    (hn : (h.list r).size < 2 ^ 63) : getItem h (.list r) (.int i) = .ok old := by
  rw [Ember.getItem_list, hpick.position?_list hn]
  exact congrArg Except.ok hpick.getD

theorem setItem_list (hpick : Picks i (h.list r).toList before old after)
    (hn : (h.list r).size < 2 ^ 63) (v : Value) : setItem (.list r) (.int i) v h =
      .ok () (h.modifyList r fun _ => (before ++ v :: after).toArray) := by
  rw [Ember.setItem_list, hpick.position?_list hn, ← hpick.modifyList_set]

theorem deleteItem_list (hpick : Picks i (h.list r).toList before old after)
    (hn : (h.list r).size < 2 ^ 63) : deleteItem (.list r) (.int i) h =
      .ok () (h.modifyList r fun _ => (before ++ after).toArray) := by
  rw [Ember.deleteItem_list, hpick.position?_list hn, ← hpick.modifyList_erase]

theorem call_delete (hpick : Picks i (h.list r).toList before old after)
    (hn : (h.list r).size < 2 ^ 63) : CoreFunction.delete.call #[.list r, .int i] h =
      .ok old (h.modifyList r fun _ => (before ++ after).toArray) := by
  rw [CoreFunction.call_delete, deletePosition?_eq hn, hpick.position?_list hn,
    ← hpick.modifyList_erase]
  exact congrArg (EStateM.Result.ok · _) hpick.getD

/-- After a change the index picks what has been put in the list. -/
theorem restored (hpick : Picks i (h.list r).toList before old after) (v : Value) :
    Picks i ((h.modifyList r fun _ => (before ++ v :: after).toArray).list r).toList
      before v after := by
  rw [hpick.list_modifyList]
  exact hpick.replaced v

end Picks

end

/-! ## Texts -/

theorem getItem_str (h : Heap) (s : String) (i : Int64) :
    getItem h (.str s) (.int i) = match position? i s.length with
      | some p => .ok (.str (String.singleton (s.toList.getD p 'A')))
      | none => .error (.indexOutOfBounds i.toInt s.length) := by
  rw [← String.length_toList]
  rfl

theorem Picks.getItem_str {s : String} {i : Int64} {before after : List Char} {c : Char}
    (hpick : Picks i s.toList before c after) (hn : s.length < 2 ^ 63) (h : Heap) :
    getItem h (.str s) (.int i) = .ok (.str (String.singleton c)) := by
  have hposition : Ember.position? i s.length = some before.length := by
    rw [← String.length_toList] at hn ⊢
    exact hpick.position? hn
  have hc : s.toList.getD before.length 'A' = c := by
    rw [List.getD_eq_getElem?_getD, hpick.getElem?]
    rfl
  rw [Ember.getItem_str, hposition, ← hc]

theorem CoreFunction.call_list_str (h : Heap) (s : String) :
    list.call #[.str s] h =
      .ok (.list (h.newList (characters s)).1) (h.newList (characters s)).2 := rfl

theorem CoreFunction.call_len_list (h : Heap) (r : ListRef) :
    len.call #[.list r] h = .ok (.int (Int64.ofNat (h.list r).size)) h := rfl

theorem CoreFunction.toList_characters (s : String) :
    (characters s).toList = s.toList.map fun c => .str (String.singleton c) := by
  rw [characters, Array.toList_map, Text.characters_eq, List.map_map]
  rfl

/-- Every way to use an index of a list agrees with every other. An index is in range from `-n` to
`n - 1`, for a list of length `n`; it then picks the same item, which is read, replaced or taken
away between the others. Out of range all fail, and the list stays as it is. A text has the items of
the list of its characters, and the length of that. A length is one that a 64-bit integer holds, as
that of all that can be in memory is. -/
theorem indices_agree (h : Heap) :
    (∀ (r : ListRef) (i : Int64) (v : Value), (h.list r).size < 2 ^ 63 →
      if -((h.list r).size : Int) ≤ i.toInt ∧ i.toInt < (h.list r).size then
        ∃ (before : List Value) (old : Value) (after : List Value) (stored deleted : Heap),
          Picks i (h.list r).toList before old after ∧
          getItem h (.list r) (.int i) = .ok old ∧
          (setItem (.list r) (.int i) v h = .ok () stored ∧
            stored = h.modifyList r (fun _ => (before ++ v :: after).toArray) ∧
            (stored.list r).toList = before ++ v :: after ∧
            getItem stored (.list r) (.int i) = .ok v) ∧
          (deleteItem (.list r) (.int i) h = .ok () deleted ∧
            CoreFunction.delete.call #[.list r, .int i] h = .ok old deleted ∧
            deleted = h.modifyList r (fun _ => (before ++ after).toArray) ∧
            (deleted.list r).toList = before ++ after)
      else
        getItem h (.list r) (.int i) = .error (.indexOutOfBounds i.toInt (h.list r).size) ∧
        setItem (.list r) (.int i) v h = .error (.indexOutOfBounds i.toInt (h.list r).size) h ∧
        deleteItem (.list r) (.int i) h = .error (.indexOutOfBounds i.toInt (h.list r).size) h ∧
        CoreFunction.delete.call #[.list r, .int i] h =
          .error (.indexOutOfRange i.toInt (h.list r).size) h) ∧
    ∀ s : String, ∃ (r : ListRef) (h' : Heap),
      CoreFunction.list.call #[.str s] h = .ok (.list r) h' ∧
      (h'.list r).toList = s.toList.map (fun c => .str (String.singleton c)) ∧
      CoreFunction.len.call #[.str s] h = .ok (.int (Int64.ofNat s.length)) h ∧
      CoreFunction.len.call #[.list r] h' = .ok (.int (Int64.ofNat s.length)) h' ∧
      (s.length < 2 ^ 63 → ∀ i : Int64,
        getItem h (.str s) (.int i) = getItem h' (.list r) (.int i) ∧
        if -(s.length : Int) ≤ i.toInt ∧ i.toInt < s.length then
          ∃ before c after, Picks i s.toList before c after ∧
            getItem h (.str s) (.int i) = .ok (.str (String.singleton c))
        else getItem h (.str s) (.int i) = .error (.indexOutOfBounds i.toInt s.length)) := by
  refine ⟨fun r i v hn => ?_, fun s => ?_⟩
  · by_cases hi : -((h.list r).size : Int) ≤ i.toInt ∧ i.toInt < (h.list r).size
    · rw [if_pos hi]
      obtain ⟨before, old, after, hpick⟩ := exists_picks hi
      have hstored := hpick.list_modifyList (before ++ v :: after).toArray
      have hdeleted := hpick.list_modifyList (before ++ after).toArray
      refine ⟨before, old, after, _, _, hpick, hpick.getItem_list hn,
        ⟨hpick.setItem_list hn v, rfl, by rw [hstored], ?_⟩,
        hpick.deleteItem_list hn, hpick.call_delete hn, rfl, by rw [hdeleted]⟩
      refine (hpick.restored v).getItem_list ?_
      rw [hstored, List.size_toArray, hpick.length_replaced]
      exact hn
    · have hnone := position?_eq_none hn hi
      rw [if_neg hi, getItem_list, setItem_list, deleteItem_list, CoreFunction.call_delete,
        deletePosition?_eq hn, hnone]
      exact ⟨rfl, rfl, rfl, rfl⟩
  · let r := (h.newList (CoreFunction.characters s)).1
    let h' := (h.newList (CoreFunction.characters s)).2
    have hlist : h'.list r = CoreFunction.characters s := h.list_newList _
    have hitems : (h'.list r).toList = s.toList.map fun c => .str (String.singleton c) := by
      rw [hlist, CoreFunction.toList_characters]
    have hsize : (h'.list r).size = s.length := by
      rw [← Array.length_toList, hitems, List.length_map, String.length_toList]
    refine ⟨r, h', CoreFunction.call_list_str h s, hitems, rfl, ?_, fun hn i => ?_⟩
    · rw [CoreFunction.call_len_list, hsize]
    · by_cases hi : -(s.length : Int) ≤ i.toInt ∧ i.toInt < s.length
      · rw [if_pos hi]
        rw [← String.length_toList] at hi
        obtain ⟨before, c, after, hpick⟩ := exists_picks hi
        have hpicked := hpick.map fun c => Value.str (String.singleton c)
        rw [← hitems] at hpicked
        have hc := hpick.getItem_str hn h
        exact ⟨by rw [hc, hpicked.getItem_list (by rw [hsize]; exact hn)],
          before, c, after, hpick, hc⟩
      · rw [if_neg hi, getItem_str, getItem_list, hsize, position?_eq_none hn hi]
        exact ⟨rfl, rfl⟩

/-- The last item of a list, the least of all integers as an index, and a character of more than one
byte. -/
theorem indices_agree_at_ends :
    let h := (Heap.empty.newList #[.int 7, .int 8, .int 9]).2
    let r : ListRef := ⟨0⟩
    (h.list r).size < 2 ^ 63 ∧ "añb".length < 2 ^ 63 ∧
      (∃ deleted, deleteItem (.list r) (.int (-1)) h = .ok () deleted ∧
        CoreFunction.delete.call #[.list r, .int (-1)] h = .ok (.int 9) deleted ∧
        (deleted.list r).toList = [.int 7, .int 8]) ∧
      getItem h (.list r) (.int Int64.minValue) = .error (.indexOutOfBounds (-2 ^ 63) 3) ∧
      getItem h (.str "añb") (.int (-2)) = .ok (.str "ñ") := by
  intro h r
  have hn : (h.list r).size < 2 ^ 63 := by decide
  have hs : "añb".length < 2 ^ 63 := by decide
  have hlast := (indices_agree h).1 r (-1) .nil hn
  have hleast := (indices_agree h).1 r Int64.minValue .nil hn
  obtain ⟨r', h', -, -, -, -, htext⟩ := (indices_agree h).2 "añb"
  have hmiddle := (htext hs (-2)).2
  rw [if_pos (by decide)] at hlast hmiddle
  rw [if_neg (by decide)] at hleast
  obtain ⟨before, old, after, -, deleted, hpick, -, -, hdelete, hcall, -, hitems⟩ := hlast
  obtain ⟨front, c, back, hchar, hget⟩ := hmiddle
  have hbefore : before.length = 2 := Int.ofNat.inj hpick.place
  have hfront : front.length = 1 := Int.ofNat.inj hchar.place
  have hold : some (.int 9) = some old := by
    rw [← hpick.getElem?, hbefore]
    rfl
  have hc : some 'ñ' = some c := by
    rw [← hchar.getElem?, hfront]
    rfl
  cases hold
  cases hc
  refine ⟨hn, hs, ⟨deleted, hdelete, hcall, ?_⟩, hleast.1, hget⟩
  rw [hitems, ← hpick.eraseIdx, hbefore]
  rfl

end Ember
