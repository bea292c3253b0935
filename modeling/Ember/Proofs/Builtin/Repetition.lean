import Mathlib.Algebra.Ring.Int.Defs
import Ember.Builtin.Strings
import Ember.Proofs.Value.Lists

/-! Repeated texts and lists. The length is checked before anything is made. The operator finds the
number of copies of a text back from that length, and puts items into a list until it has that
length; the library `strings` counts the copies. All give the same copies. -/
namespace Ember
set_option autoImplicit false

/-! ## Lengths -/

/-- The length is refused just if it exceeds 2^28. -/
theorem repeatLength?_eq (unit : Nat) (count : Int) :
    repeatLength? unit count =
      if 2 ^ 28 < (unit : Int) * count then none else some (unit * count.toNat) := by
  rw [repeatLength?]
  rcases Int.le_total count 0 with hcount | hcount
  · have hproduct : (unit : Int) * count ≤ 0 :=
      Int.mul_nonpos_of_nonneg_of_nonpos (Int.natCast_nonneg unit) hcount
    rw [if_pos (by simp [hcount]), if_neg (by omega), Int.toNat_of_nonpos hcount, Nat.mul_zero]
  · obtain ⟨n, rfl⟩ := Int.eq_ofNat_of_zero_le hcount
    have hproduct : (unit : Int) * n = (unit * n : Nat) := rfl
    rw [hproduct, Int.toNat_natCast, maxRepeatLength]
    by_cases hnone : n = 0 ∨ unit = 0
    · have hzero : unit * n = 0 := by rcases hnone with rfl | rfl <;> simp
      rw [hzero, if_pos (by rcases hnone with rfl | rfl <;> simp), if_neg (by decide)]
    · rw [if_neg (by simp; omega)]
      by_cases hlong : unit * n ≤ 268435456
      · rw [if_pos hlong, if_neg (by omega)]
      · rw [if_neg hlong, if_pos (by omega)]

/-! ## Texts -/

/-- A text so many times over. -/
def copies (s : String) (n : Nat) : String := String.join (List.replicate n s)

theorem repeatText_eq (s : String) (n : Nat) (out : String) :
    repeatText s n out = out ++ copies s n := by
  induction n generalizing out with
  | zero => exact String.append_empty.symm
  | succ n ih =>
    rw [repeatText, ih, copies, copies, List.replicate_succ, String.join_cons, String.append_assoc]

theorem copies_empty (n : Nat) : copies "" n = "" := by
  induction n with
  | zero => rfl
  | succ n ih =>
    rw [copies, List.replicate_succ, String.join_cons, ← copies, ih]
    rfl

/-- The number of copies is found back from the length that they have together. -/
theorem repeatStr_eq (s : String) (n : Int64) (h : Heap) :
    repeatStr s n h = if 2 ^ 28 < (s.utf8ByteSize : Int) * n.toInt
      then .error (.repeatTooLarge n.toInt) h else .ok (.str (copies s n.toInt.toNat)) h := by
  rw [repeatStr, repeatLength?_eq]
  by_cases hlong : 2 ^ 28 < (s.utf8ByteSize : Int) * n.toInt
  · rw [if_pos hlong, if_pos hlong]
    rfl
  · rw [if_neg hlong, if_neg hlong]
    dsimp only
    by_cases hnone : s.utf8ByteSize * n.toInt.toNat = 0
    · rw [hnone]
      rcases Nat.mul_eq_zero.1 hnone with hs | hn
      · rw [String.utf8ByteSize_eq_zero_iff.1 hs, copies_empty]
        rfl
      · rw [hn]
        rfl
    · have hpos : 0 < s.utf8ByteSize := Nat.pos_of_mul_pos_right (Nat.pos_of_ne_zero hnone)
      rw [if_neg (by simpa using hnone), Nat.mul_div_cancel_left _ hpos, repeatText_eq,
        String.empty_append]
      rfl

theorem StringsFunction.call_repeat (s : String) (n : Int64) (h : Heap) :
    StringsFunction.repeat.call #[.str s, .int n] h =
      if n < 0 then .error .negativeRepeat h
      else if 2 ^ 28 < (s.utf8ByteSize : Int) * n.toInt then .error (.repeatTooLarge n.toInt) h
      else .ok (.str (copies s n.toInt.toNat)) h := by
  have hask : StringsFunction.repeat.call #[.str s, .int n] = ask fun _ =>
      if n < 0 then .error .negativeRepeat
      else if (repeatLength? s.utf8ByteSize n.toInt).isNone then .error (.repeatTooLarge n.toInt)
      else .ok (.str (if s.isEmpty then "" else repeatText s n.toInt.toNat "")) := rfl
  rw [hask, ask, repeatLength?_eq]
  by_cases hneg : n < 0
  · rw [if_pos hneg, if_pos hneg]
  · rw [if_neg hneg, if_neg hneg]
    by_cases hlong : 2 ^ 28 < (s.utf8ByteSize : Int) * n.toInt
    · rw [if_pos hlong, if_pos hlong]
      rfl
    · rw [if_neg hlong, if_neg hlong, repeatText_eq, String.empty_append]
      by_cases hs : s = ""
      · subst hs
        rw [copies_empty]
        rfl
      · have hne : s.isEmpty = false := Bool.eq_false_iff.2 (mt String.isEmpty_iff.1 hs)
        rw [hne]
        rfl

/-! ## Lists -/

section
variable {α : Type}

theorem length_flatten_replicate (xs : List α) (n : Nat) :
    (List.replicate n xs).flatten.length = xs.length * n := by
  rw [List.length_flatten, List.map_replicate, List.sum_replicate_nat, Nat.mul_comm]

/-- The items of a repeated list come round again after as many as the list has. -/
theorem getElem?_flatten_replicate (xs : List α) (n k : Nat) :
    (List.replicate n xs).flatten[k]? =
      if k < xs.length * n then xs[k % xs.length]? else none := by
  induction n generalizing k with
  | zero => rfl
  | succ n ih =>
    rw [List.replicate_succ, List.flatten_cons, List.getElem?_append, Nat.mul_succ]
    by_cases hk : k < xs.length
    · rw [if_pos hk, if_pos (by omega), Nat.mod_eq_of_lt hk]
    · rw [if_neg hk, ih, ← Nat.mod_eq_sub_mod (Nat.not_lt.1 hk)]
      by_cases hn : k - xs.length < xs.length * n
      · rw [if_pos hn, if_pos (by omega)]
      · rw [if_neg hn, if_neg (by omega)]

end

/-- A length that some copies have together is met exactly. -/
theorem fillItems_eq {items : Array Value} {length : Nat} {h : items.size = 0 → length = 0}
    {out : Array Value} {n : Nat} (hn : out.size + items.size * n = length) :
    (fillItems items length h out).toList =
      out.toList ++ (List.replicate n items.toList).flatten := by
  induction n generalizing out with
  | zero =>
    rw [fillItems, if_neg (by omega)]
    simp
  | succ n ih =>
    rw [Nat.mul_succ] at hn
    rw [fillItems, List.replicate_succ, List.flatten_cons]
    by_cases hfew : out.size < length
    · rw [if_pos hfew, ih (by rw [Array.size_append]; omega), Array.toList_append,
        List.append_assoc]
    · have hempty : items = #[] := Array.size_eq_zero_iff.1 (by omega)
      rw [if_neg hfew, hempty]
      simp

theorem repeatList_eq (items : Array Value) (n : Int64) :
    repeatList items n = if 2 ^ 28 < (items.size : Int) * n.toInt
      then throw (.repeatTooLarge n.toInt)
      else OnHeap.newList (List.replicate n.toInt.toNat items.toList).flatten.toArray := by
  have hlength := repeatLength?_eq items.size n.toInt
  by_cases hlong : 2 ^ 28 < (items.size : Int) * n.toInt
  · rw [if_pos hlong] at hlength ⊢
    unfold repeatList
    split
    · rename_i hsome
      rw [hsome] at hlength
      cases hlength
    · rfl
  · rw [if_neg hlong] at hlength ⊢
    unfold repeatList
    split
    · rename_i hsome
      have hsize := Option.some.inj (hsome.symm.trans hlength)
      congr 1
      apply Array.toList_inj.1
      rw [fillItems_eq (n := n.toInt.toNat) (by simpa using hsize.symm)]
      rfl
    · rename_i hnone
      rw [hnone] at hlength
      cases hlength

/-- A list that has been multiplied is left as it was, even if nothing is known of it. -/
theorem list_newList_of_repeated (h : Heap) (r : ListRef) (n : Nat) :
    (h.newList (List.replicate n (h.list r).toList).flatten.toArray).2.list r = h.list r := by
  by_cases hr : r = ⟨h.lists.size⟩
  · have hindex : r.index = h.lists.size := congrArg ListRef.index hr
    have hempty : h.list r = #[] := h.list_eq_empty (Nat.le_of_eq hindex.symm)
    have hflat : (List.replicate n (h.list r).toList).flatten.toArray = #[] := by
      rw [hempty]
      simp
    rw [hflat, hempty, hr]
    exact h.list_newList #[]
  · exact h.list_newList_of_ne _ hr

/-- However a text or a list is repeated, the copies are the same, and they are refused just if they
are longer than 2^28 bytes or items. A product with a negative number has no copies, which only the
function `repeat` refuses; a repeated list is a new one. -/
theorem repetitions_agree (h : Heap) :
    (∀ (s : String) (n : Int64),
      let product := if 2 ^ 28 < (s.utf8ByteSize : Int) * n.toInt
        then .error (.repeatTooLarge n.toInt) h
        else .ok (.str (String.join (List.replicate n.toInt.toNat s))) h
      binary .multiply (.str s) (.int n) h = product ∧
      binary .multiply (.int n) (.str s) h = product ∧
      StringsFunction.repeat.call #[.str s, .int n] h =
        if n < 0 then .error .negativeRepeat h
        else if 2 ^ 28 < (s.utf8ByteSize : Int) * n.toInt then .error (.repeatTooLarge n.toInt) h
        else .ok (.str (String.join (List.replicate n.toInt.toNat s))) h) ∧
    ∀ (r : ListRef) (n : Int64),
      let xs := h.list r
      binary .multiply (.int n) (.list r) h = binary .multiply (.list r) (.int n) h ∧
      if 0 < n.toInt ∧ 2 ^ 28 < (xs.size : Int) * n.toInt then
        binary .multiply (.list r) (.int n) h = .error (.repeatTooLarge n.toInt) h
      else ∃ (r' : ListRef) (h' : Heap),
        binary .multiply (.list r) (.int n) h = .ok (.list r') h' ∧
        h.lists.size ≤ r'.index ∧
        (h'.list r').size = xs.size * (max n.toInt 0).toNat ∧
        (∀ k : Nat, (h'.list r')[k]? =
          if k < (h'.list r').size then xs[k % xs.size]? else none) ∧
        h'.list r = xs := by
  refine ⟨fun s n => ⟨?_, ?_, StringsFunction.call_repeat s n h⟩, fun r n => ⟨rfl, ?_⟩⟩
  · exact repeatStr_eq s n h
  · exact repeatStr_eq s n h
  · have hproduct : binary .multiply (.list r) (.int n) h = repeatList (h.list r) n h := rfl
    rw [hproduct, repeatList_eq]
    by_cases hlong : 2 ^ 28 < ((h.list r).size : Int) * n.toInt
    · have hpos : 0 < n.toInt := by
        refine Int.not_le.1 fun hle => ?_
        have hproduct :=
          Int.mul_nonpos_of_nonneg_of_nonpos (Int.natCast_nonneg (h.list r).size) hle
        omega
      rw [if_pos hlong, if_pos ⟨hpos, hlong⟩]
      rfl
    · rw [if_neg hlong, if_neg fun hfail => hlong hfail.2]
      have hcount : (max n.toInt 0).toNat = n.toInt.toNat := by omega
      let items := (List.replicate n.toInt.toNat (h.list r).toList).flatten.toArray
      have hmade := h.list_newList items
      refine ⟨(h.newList items).1, (h.newList items).2, rfl, Nat.le_refl _, ?_, fun k => ?_,
        list_newList_of_repeated h r n.toInt.toNat⟩
      · rw [hmade, List.size_toArray, length_flatten_replicate, hcount, Array.length_toList]
      · rw [hmade, List.getElem?_toArray, getElem?_flatten_replicate, List.size_toArray,
          length_flatten_replicate, Array.length_toList, Array.getElem?_toList]

end Ember
