import Mathlib.Data.Finset.Prod
import Mathlib.Logic.Relation
import Ember.Proofs.Value.Data
import Ember.Value.Equality

/-! Which values are equal: those that are bisimilar. Comparison takes a pair of lists or maps for
equal while it is comparing it, and forgets about it afterwards; here this is shown to find neither
more nor less than the largest relation between values that look the same and hold related values.
-/
namespace Ember
set_option autoImplicit false

/-! ## What values hold -/

namespace Value

/-- The second value is an item of the first, the value of one of its entries, or its payload. -/
inductive Holds (h : Heap) : Value → Value → Prop
  | item {r : ListRef} {i : Nat} {v : Value} (hv : (h.list r)[i]? = some v) : Holds h (.list r) v
  | entry {r : MapRef} {k : Key} {v : Value} (hv : (h.map r).get? k = some v) : Holds h (.map r) v
  | payload (id : Nat) (isOk : Bool) (v : Value) : Holds h (.result id isOk v) v

/-- Values that are equal to themselves only. -/
def isAtomic : Value → Bool
  | .nil | .bool _ | .int _ | .float _ | .str _ | .builtin .. | .library .. | .error ..
  | .resource _ | .cell _ => true
  | _ => false

/-- Two values look the same, and `R` holds of what they hold in the same places. -/
inductive Alike (h : Heap) (R : Value → Value → Prop) : Value → Value → Prop
  | atom {v : Value} (hv : v.isAtomic = true) : Alike h R v v
  | function {f g : Routine Value} (hid : f.id = g.id) : Alike h R (.function f) (.function g)
  | closure {id : Nat} {f g : Routine Value} {cells cells' : Array CellRef} :
    Alike h R (.closure id f cells) (.closure id g cells')
  | set {a b : SetRef} (hmembers : ∀ k, (h.set a).contains k = (h.set b).contains k) :
    Alike h R (.set a) (.set b)
  | list {a b : ListRef} (hsize : (h.list a).size = (h.list b).size)
    (hitems : ∀ (i : Nat) (v w : Value),
      (h.list a)[i]? = some v → (h.list b)[i]? = some w → R v w) :
    Alike h R (.list a) (.list b)
  | map {a b : MapRef} (hkeys : ∀ k, (h.map a).contains k = (h.map b).contains k)
    (hentries : ∀ (k : Key) (v w : Value),
      (h.map a).get? k = some v → (h.map b).get? k = some w → R v w) :
    Alike h R (.map a) (.map b)
  | result {id id' : Nat} {isOk : Bool} {v w : Value} (hpayload : R v w) :
    Alike h R (.result id isOk v) (.result id' isOk w)

/-- Some relation holds of the two values that only holds of values which are alike by it. -/
def Bisimilar (h : Heap) (v w : Value) : Prop :=
  ∃ R : Value → Value → Prop, (∀ v w, R v w → Alike h R v w) ∧ R v w

section
variable {h : Heap} {R S : Value → Value → Prop} {u v w : Value}

theorem Alike.mono (halike : Alike h R v w)
    (hRS : ∀ v' w', Holds h v v' → Holds h w w' → R v' w' → S v' w') : Alike h S v w := by
  cases halike with
  | atom hv => exact .atom hv
  | function hid => exact .function hid
  | closure => exact .closure
  | set hmembers => exact .set hmembers
  | list hsize hitems =>
    exact .list hsize fun i v' w' hv hw => hRS v' w' (.item hv) (.item hw) (hitems i v' w' hv hw)
  | map hkeys hentries =>
    exact .map hkeys fun k v' w' hv hw => hRS v' w' (.entry hv) (.entry hw) (hentries k v' w' hv hw)
  | result hpayload => exact .result (hRS _ _ (.payload ..) (.payload ..) hpayload)

theorem Alike.refl (hR : ∀ v', Holds h v v' → R v' v') : Alike h R v v := by
  cases v with
  | function f => exact .function rfl
  | closure id f cells => exact .closure
  | set r => exact .set fun _ => rfl
  | list r =>
    refine .list rfl fun i v' w' hv' hw' => ?_
    obtain rfl : v' = w' := Option.some.inj (hv'.symm.trans hw')
    exact hR v' (.item hv')
  | map r =>
    refine .map (fun _ => rfl) fun k v' w' hv' hw' => ?_
    obtain rfl : v' = w' := Option.some.inj (hv'.symm.trans hw')
    exact hR v' (.entry hv')
  | result id isOk payload => exact .result (hR payload (.payload ..))
  | _ => exact .atom rfl

theorem Alike.symm (halike : Alike h R v w) : Alike h (fun a b => R b a) w v := by
  cases halike with
  | atom hv => exact .atom hv
  | function hid => exact .function hid.symm
  | closure => exact .closure
  | set hmembers => exact .set fun k => (hmembers k).symm
  | list hsize hitems => exact .list hsize.symm fun i v' w' hv hw => hitems i w' v' hw hv
  | map hkeys hentries =>
    exact .map (fun k => (hkeys k).symm) fun k v' w' hv hw => hentries k w' v' hw hv
  | result hpayload => exact .result hpayload

theorem getElem?_of_size_eq {α : Type} {a b : Array α} (hsize : a.size = b.size) {i : Nat} {x : α}
    (hx : a[i]? = some x) : ∃ y, b[i]? = some y :=
  ⟨_, Array.getElem?_eq_getElem (hsize ▸ (Array.getElem?_eq_some_iff.1 hx).1)⟩

theorem Alike.trans (huv : Alike h R u v) (hvw : Alike h S v w) :
    Alike h (fun a c => ∃ b, R a b ∧ S b c) u w := by
  cases huv with
  | atom hv =>
    cases hvw with
    | atom => exact .atom hv
    | _ => cases hv
  | function hid =>
    cases hvw with
    | atom hv => cases hv
    | function hid' => exact .function (hid.trans hid')
  | closure =>
    cases hvw with
    | atom hv => cases hv
    | closure => exact .closure
  | set hmembers =>
    cases hvw with
    | atom hv => cases hv
    | set hmembers' => exact .set fun k => (hmembers k).trans (hmembers' k)
  | list hsize hitems =>
    cases hvw with
    | atom hv => cases hv
    | list hsize' hitems' =>
      refine .list (hsize.trans hsize') fun i a c ha hc => ?_
      obtain ⟨b, hb⟩ := getElem?_of_size_eq hsize ha
      exact ⟨b, hitems i a b ha hb, hitems' i b c hb hc⟩
  | map hkeys hentries =>
    cases hvw with
    | atom hv => cases hv
    | map hkeys' hentries' =>
      refine .map (fun k => (hkeys k).trans (hkeys' k)) fun k a c ha hc => ?_
      obtain ⟨b, hb⟩ := OrderedMap.contains_iff_get?.1
        ((hkeys k).symm.trans (OrderedMap.contains_iff_get?.2 ⟨a, ha⟩))
      exact ⟨b, hentries k a b ha hb, hentries' k b c hb hc⟩
  | result hpayload =>
    cases hvw with
    | atom hv => cases hv
    | result hpayload' => exact .result ⟨_, hpayload, hpayload'⟩

theorem Bisimilar.refl (h : Heap) (v : Value) : Bisimilar h v v :=
  ⟨Eq, by rintro v _ rfl; exact .refl fun _ _ => rfl, rfl⟩

theorem Bisimilar.symm (hvw : Bisimilar h v w) : Bisimilar h w v := by
  obtain ⟨R, hR, hrel⟩ := hvw
  exact ⟨fun a b => R b a, fun a b hab => (hR b a hab).symm, hrel⟩

theorem Bisimilar.trans (huv : Bisimilar h u v) (hvw : Bisimilar h v w) : Bisimilar h u w := by
  obtain ⟨R, hR, hrel⟩ := huv
  obtain ⟨S, hS, hrel'⟩ := hvw
  refine ⟨fun a c => ∃ b, R a b ∧ S b c, ?_, v, hrel, hrel'⟩
  rintro a c ⟨b, hab, hbc⟩
  exact (hR a b hab).trans (hS b c hbc)

end

end Value

/-! ## Comparing without counting steps -/

namespace Heap

/-- The pairs of lists and the pairs of maps on the heap. -/
def pairs (h : Heap) : Finset (Container × Container) :=
  (Finset.range h.lists.size ×ˢ Finset.range h.lists.size).image
      (fun p => (.list ⟨p.1⟩, .list ⟨p.2⟩)) ∪
    (Finset.range h.maps.size ×ˢ Finset.range h.maps.size).image
      fun p => (.map ⟨p.1⟩, .map ⟨p.2⟩)

/-- How many pairs are not being compared. -/
def unpaired (h : Heap) (compared : List (Container × Container)) : Nat :=
  (h.pairs.filter (· ∉ compared)).card

variable {h : Heap} {pairs : List (Container × Container)} {p : Container × Container}

theorem unpaired_cons_lt (hp : p ∈ h.pairs) (hnew : p ∉ pairs) :
    h.unpaired (p :: pairs) < h.unpaired pairs := by
  refine Finset.card_lt_card (Finset.ssubset_iff_of_subset ?_ |>.2 ⟨p, ?_, ?_⟩)
  · intro q hq
    rw [Finset.mem_filter] at hq ⊢
    exact ⟨hq.1, fun hmem => hq.2 (List.mem_cons_of_mem p hmem)⟩
  · exact Finset.mem_filter.2 ⟨hp, hnew⟩
  · exact fun hmem => (Finset.mem_filter.1 hmem).2 List.mem_cons_self

theorem card_pairs_le (h : Heap) : h.pairs.card ≤ h.pairBound := by
  refine Nat.le_trans (Finset.card_union_le _ _) ?_
  refine Nat.le_trans (Nat.add_le_add Finset.card_image_le Finset.card_image_le) ?_
  rw [Finset.card_product, Finset.card_product, Finset.card_range, Finset.card_range]
  exact Nat.le_succ _

theorem list_pair_mem {a b : ListRef} (ha : a.index < h.lists.size) (hb : b.index < h.lists.size) :
    (.list a, .list b) ∈ h.pairs :=
  Finset.mem_union_left _ (Finset.mem_image.2 ⟨(a.index, b.index),
    Finset.mem_product.2 ⟨Finset.mem_range.2 ha, Finset.mem_range.2 hb⟩, rfl⟩)

theorem map_pair_mem {a b : MapRef} (ha : a.index < h.maps.size) (hb : b.index < h.maps.size) :
    (.map a, .map b) ∈ h.pairs :=
  Finset.mem_union_right _ (Finset.mem_image.2 ⟨(a.index, b.index),
    Finset.mem_product.2 ⟨Finset.mem_range.2 ha, Finset.mem_range.2 hb⟩, rfl⟩)

end Heap

namespace Value

variable {h : Heap} {pairs : List (Container × Container)} {v w : Value}

theorem lt_size_of_item {r : ListRef} {i : Nat} (hv : (h.list r)[i]? = some v) :
    r.index < h.lists.size :=
  lt_size_of_list (List.ne_nil_of_mem (Array.mem_toList_iff.2 (Array.mem_of_getElem? hv)))

theorem lt_size_of_entry {r : MapRef} {k : Key} (hv : (h.map r).get? k = some v) :
    r.index < h.maps.size :=
  lt_size_of_map (List.ne_nil_of_mem (Array.mem_toList_iff.2 (OrderedMap.mem_entries_of_get? hv)))

theorem all_zip_iff {α β : Type} {a : Array α} {b : Array β} {p : α × β → Bool} :
    (Array.zip a b).all p = true ↔
      ∀ (i : Nat) (x : α) (y : β), a[i]? = some x → b[i]? = some y → p (x, y) = true := by
  rw [Array.all_eq_true']
  constructor
  · intro hall i x y hx hy
    exact hall (x, y) (Array.mem_of_getElem? (Array.getElem?_zip_eq_some.2 ⟨hx, hy⟩))
  · rintro hall ⟨x, y⟩ hmem
    obtain ⟨i, hi⟩ := Array.mem_iff_getElem?.1 hmem
    obtain ⟨hx, hy⟩ := Array.getElem?_zip_eq_some.1 hi
    exact hall i x y hx hy

section
variable {inside inside' : List (Container × Container) → Value → Value → Bool}

theorem eqWith_list_iff {a b : ListRef} :
    eqWith h inside pairs (.list a) (.list b) = true ↔
      a = b ∨ (.list a, .list b) ∈ pairs ∨ (h.list a).size = (h.list b).size ∧
        ∀ (i : Nat) (v w : Value), (h.list a)[i]? = some v → (h.list b)[i]? = some w →
          inside ((.list a, .list b) :: pairs) v w = true := by
  rw [eqWith, Bool.or_eq_true, Bool.or_eq_true, Bool.and_eq_true, beq_iff_eq, beq_iff_eq,
    List.contains_iff_mem, all_zip_iff, or_assoc]

theorem eqWith_map_iff {a b : MapRef} :
    eqWith h inside pairs (.map a) (.map b) = true ↔
      a = b ∨ (.map a, .map b) ∈ pairs ∨ (∀ k, (h.map a).contains k = (h.map b).contains k) ∧
        ∀ (k : Key) (v w : Value), (h.map a).get? k = some v → (h.map b).get? k = some w →
          inside ((.map a, .map b) :: pairs) v w = true := by
  rw [eqWith, Bool.or_eq_true, Bool.or_eq_true, Bool.and_eq_true, beq_iff_eq, beq_iff_eq,
    List.contains_iff_mem, Array.all_eq_true', OrderedMap.contains_eq_iff, or_assoc, and_assoc]
  refine or_congr_right (or_congr_right (and_congr_right fun _ => ?_))
  constructor
  · intro hall
    have hvalue : ∀ k v, (h.map a).get? k = some v → ∃ w, (h.map b).get? k = some w ∧
        inside ((.map a, .map b) :: pairs) v w = true := by
      intro k v hv
      have hentry := hall (k, v) (OrderedMap.mem_entries_of_get? hv)
      dsimp only at hentry
      split at hentry
      · rename_i w hw
        exact ⟨w, hw, hentry⟩
      · cases hentry
    refine ⟨fun k hk => ?_, fun k v w hv hw => ?_⟩
    · obtain ⟨v, hv⟩ := OrderedMap.contains_iff_get?.1 (OrderedMap.contains_iff_mem_keys.2 hk)
      obtain ⟨w, hw, -⟩ := hvalue k v hv
      exact OrderedMap.contains_iff_get?.2 ⟨w, hw⟩
    · obtain ⟨w', hw', hinside⟩ := hvalue k v hv
      obtain rfl : w' = w := Option.some.inj (hw'.symm.trans hw)
      exact hinside
  · rintro ⟨hkeys, hentries⟩ ⟨k, v⟩ hmem
    obtain ⟨w, hw⟩ := OrderedMap.contains_iff_get?.1
      (hkeys k (Array.mem_map.2 ⟨_, hmem, rfl⟩))
    dsimp only
    rw [hw]
    exact hentries k v w (OrderedMap.get?_eq_some_of_mem hmem) hw

theorem eqWith_set_iff {a b : SetRef} :
    eqWith h inside pairs (.set a) (.set b) = true ↔
      ∀ k, (h.set a).contains k = (h.set b).contains k := by
  rw [eqWith, Bool.or_eq_true, Bool.and_eq_true, beq_iff_eq, beq_iff_eq, Array.all_eq_true',
    ← OrderedMap.contains_eq_iff, or_iff_right_of_imp]
  rintro rfl k
  rfl

/-- What is inside a pair of containers is compared only if the pair is on the heap and is not being
compared. -/
theorem eqWith_congr
    (hsame : ∀ p ∈ h.pairs, p ∉ pairs → inside (p :: pairs) = inside' (p :: pairs)) (v w : Value) :
    eqWith h inside pairs v w = eqWith h inside' pairs v w := by
  fun_induction eqWith h inside pairs v w with
  | case8 a b =>
    rw [← eqWith, Bool.eq_iff_iff, eqWith_list_iff, eqWith_list_iff]
    refine or_congr_right (or_congr_right' fun hnew => and_congr_right fun _ => ?_)
    refine forall_congr' fun i => forall₂_congr fun v w => forall₂_congr fun hv hw => ?_
    rw [hsame _ (Heap.list_pair_mem (lt_size_of_item hv) (lt_size_of_item hw)) hnew]
  | case9 a b =>
    rw [← eqWith, Bool.eq_iff_iff, eqWith_map_iff, eqWith_map_iff]
    refine or_congr_right (or_congr_right' fun hnew => and_congr_right fun _ => ?_)
    refine forall_congr' fun i => forall₂_congr fun v w => forall₂_congr fun hv hw => ?_
    rw [hsame _ (Heap.map_pair_mem (lt_size_of_entry hv) (lt_size_of_entry hw)) hnew]
  | case15 a okA v b okB w ih => rw [eqWith, ih]
  | case19 => rw [eqWith] <;> assumption
  | _ => rfl

end

/-- Compares two values as `eqWith` does, to any depth. That fewer pairs are left inside is checked
only to say why this comes to an end; it is always so, see `eqIn_eq`. -/
def eqIn (h : Heap) (pairs : List (Container × Container)) (v w : Value) : Bool :=
  eqWith h (fun pairs' v' w' =>
    if h.unpaired pairs' < h.unpaired pairs then eqIn h pairs' v' w' else false) pairs v w
termination_by h.unpaired pairs

theorem eqIn_eq (h : Heap) (pairs : List (Container × Container)) (v w : Value) :
    eqIn h pairs v w = eqWith h (eqIn h) pairs v w := by
  rw [eqIn]
  refine eqWith_congr (fun p hp hnew => ?_) v w
  funext v' w'
  rw [if_pos (Heap.unpaired_cons_lt hp hnew)]

/-- Enough steps are as good as any number of them. -/
theorem eqWithin_eq {steps : Nat} (hsteps : h.unpaired pairs ≤ steps) (v w : Value) :
    eqWithin h steps pairs v w = eqIn h pairs v w := by
  induction steps generalizing pairs v w with
  | zero =>
    rw [eqWithin, eqIn_eq]
    refine eqWith_congr (fun p hp hnew => ?_) v w
    have := Heap.unpaired_cons_lt hp hnew
    omega
  | succ steps ih =>
    rw [eqWithin, eqIn_eq]
    refine eqWith_congr (fun p hp hnew => ?_) v w
    have := Heap.unpaired_cons_lt hp hnew
    funext v' w'
    exact ih (by omega) v' w'

theorem equal_eq (h : Heap) (v w : Value) : v.equal h w = eqIn h [] v w :=
  eqWithin_eq (Nat.le_trans (Finset.card_filter_le _ _) h.card_pairs_le) v w

/-! ## Equal values are bisimilar -/

/-- The second value is the first, or is reached from it. -/
def Reaches (h : Heap) : Value → Value → Prop := Relation.ReflTransGen (Holds h)

/-- What can be compared by what it holds: no float is reached from the value, and every result that
is reached is the one that was made under its number, so that the number tells which result it is.
-/
structure Comparable (h : Heap) (made : Nat → Bool × Value) (v : Value) : Prop where
  floatFree : ∀ x, ¬ v.Reaches h (.float x)
  numbered : ∀ id isOk payload, v.Reaches h (.result id isOk payload) → made id = (isOk, payload)

variable {made : Nat → Bool × Value}

theorem Comparable.held {u : Value} (hv : v.Comparable h made) (hu : v.Holds h u) :
    u.Comparable h made :=
  ⟨fun x hx => hv.floatFree x (.head hu hx),
    fun id isOk payload hp => hv.numbered id isOk payload (.head hu hp)⟩

/-- The pairs that are being compared inside two values. -/
def opening (pairs : List (Container × Container)) : Value → Value → List (Container × Container)
  | .list a, .list b => (.list a, .list b) :: pairs
  | .map a, .map b => (.map a, .map b) :: pairs
  | _, _ => pairs

/-- Why two values are found equal: they are the same, or are being compared, or are alike by what
is found inside. -/
theorem alike_of_eqIn (hv : v.Comparable h made) (hw : w.Comparable h made)
    (heq : eqIn h pairs v w = true) :
    v = w ∨ (∃ p ∈ pairs, p.1.value = v ∧ p.2.value = w) ∨
      Alike h (fun v' w' => eqIn h (opening pairs v w) v' w' = true) v w := by
  rw [eqIn_eq] at heq
  fun_cases eqWith h (eqIn h) pairs v w with
  | case1 => exact .inl rfl
  | case2 a b | case3 a b | case7 a b => exact .inl (congrArg _ (beq_iff_eq.1 heq))
  | case4 a b | case5 a b => exact absurd .refl (hw.floatFree b)
  | case6 a b => exact absurd .refl (hv.floatFree a)
  | case8 a b =>
    rcases eqWith_list_iff.1 heq with rfl | hopen | ⟨hsize, hitems⟩
    · exact .inl rfl
    · exact .inr (.inl ⟨_, hopen, rfl, rfl⟩)
    · exact .inr (.inr (.list hsize hitems))
  | case9 a b =>
    rcases eqWith_map_iff.1 heq with rfl | hopen | ⟨hkeys, hentries⟩
    · exact .inl rfl
    · exact .inr (.inl ⟨_, hopen, rfl, rfl⟩)
    · exact .inr (.inr (.map hkeys hentries))
  | case10 a b => exact .inr (.inr (.set (eqWith_set_iff.1 heq)))
  | case11 f g => exact .inr (.inr (.function (beq_iff_eq.1 heq)))
  | case12 a f cells b g cells' =>
    obtain rfl := beq_iff_eq.1 heq
    exact .inr (.inr .closure)
  | case13 a f b g | case14 a f b g =>
    obtain ⟨ha, hf⟩ := Bool.and_eq_true_iff.1 heq
    rw [beq_iff_eq.1 ha, beq_iff_eq.1 hf]
    exact .inl rfl
  | case15 a okA v b okB w =>
    rcases Bool.or_eq_true_iff.1 heq with hid | hsame
    · have hmade := (hv.numbered a okA v .refl).symm.trans
        ((congrArg made (beq_iff_eq.1 hid)).trans (hw.numbered b okB w .refl))
      cases hmade
      rw [beq_iff_eq.1 hid]
      exact .inl rfl
    · obtain ⟨hok, hpayload⟩ := Bool.and_eq_true_iff.1 hsame
      rw [← eqIn_eq] at hpayload
      rw [beq_iff_eq.1 hok]
      exact .inr (.inr (.result hpayload))
  | case16 a s b t =>
    obtain ⟨ha, hs⟩ := Bool.and_eq_true_iff.1 heq
    rw [beq_iff_eq.1 ha, beq_iff_eq.1 hs]
    exact .inl rfl
  | case17 a b | case18 a b => exact .inl (congrArg _ (beq_iff_eq.1 heq))
  | case19 =>
    rw [eqWith] at heq
    · cases heq
    all_goals assumption

/-- Two values look the same up to so many steps into what they hold. -/
def AlikeWithin (h : Heap) : Nat → Value → Value → Prop
  | 0 => fun _ _ => True
  | n + 1 => Alike h (AlikeWithin h n)

theorem AlikeWithin.refl (n : Nat) (v : Value) : AlikeWithin h n v v := by
  induction n generalizing v with
  | zero => trivial
  | succ n ih => exact Alike.refl fun v' _ => ih v'

theorem AlikeWithin.pred {n : Nat} (halike : AlikeWithin h (n + 1) v w) : AlikeWithin h n v w := by
  induction n generalizing v w with
  | zero => trivial
  | succ n ih => exact Alike.mono halike fun _ _ _ _ => ih

/-- Values that look the same up to any number of steps are bisimilar. -/
theorem bisimilar_of_alikeWithin (hall : ∀ n, AlikeWithin h n v w) : Bisimilar h v w := by
  refine ⟨fun v w => ∀ n, AlikeWithin h n v w, fun v w hvw => ?_, hall⟩
  cases hvw 1 with
  | atom hv => exact .atom hv
  | function hid => exact .function hid
  | closure => exact .closure
  | set hmembers => exact .set hmembers
  | list hsize _ =>
    refine .list hsize fun i v' w' hv hw n => ?_
    cases hvw (n + 1) with
    | atom hv' => cases hv'
    | list _ hitems => exact hitems i v' w' hv hw
  | map hkeys _ =>
    refine .map hkeys fun k v' w' hv hw n => ?_
    cases hvw (n + 1) with
    | atom hv' => cases hv'
    | map _ hentries => exact hentries k v' w' hv hw
  | result _ =>
    refine .result fun n => ?_
    cases hvw (n + 1) with
    | atom hv' => cases hv'
    | result hpayload => exact hpayload

/-- If the pairs that are being compared look the same for `n` steps, so do two values that are
found equal. The pair that is opened for them does so by the induction, for one step less. -/
theorem alikeWithin_of_eqIn {n : Nat} (hv : v.Comparable h made) (hw : w.Comparable h made)
    (heq : eqIn h pairs v w = true)
    (hpairs : ∀ p ∈ pairs, AlikeWithin h n p.1.value p.2.value) : AlikeWithin h n v w := by
  induction n generalizing pairs v w with
  | zero => trivial
  | succ n ih =>
    have hpairs' : ∀ p ∈ pairs, AlikeWithin h n p.1.value p.2.value :=
      fun p hp => (hpairs p hp).pred
    rcases alike_of_eqIn hv hw heq with rfl | ⟨p, hp, rfl, rfl⟩ | halike
    · exact .refl _ v
    · exact hpairs p hp
    · refine halike.mono fun v' w' hv' hw' hinside => ih (hv.held hv') (hw.held hw') hinside ?_
      have hself := ih hv hw heq hpairs'
      unfold opening
      split
      · exact List.forall_mem_cons.2 ⟨hself, hpairs'⟩
      · exact List.forall_mem_cons.2 ⟨hself, hpairs'⟩
      · exact hpairs'

/-- Values that are related by a bisimulation are found equal, whatever is being compared. -/
theorem eqIn_of_alike {R : Value → Value → Prop} (hR : ∀ v w, R v w → Alike h R v w)
    (pairs : List (Container × Container)) {v w : Value} (hv : v.Comparable h made) (hvw : R v w) :
    eqIn h pairs v w = true := by
  rw [eqIn_eq]
  cases hR v w hvw with
  | atom hatom =>
    cases v with
    | float x => exact absurd .refl (hv.floatFree x)
    | nil => rfl
    | bool _ | int _ | str _ | resource _ | cell _ => exact beq_self_eq_true _
    | builtin _ _ | library _ _ | error _ _ => simp [eqWith]
    | _ => cases hatom
  | function hid => exact beq_iff_eq.2 hid
  | closure => exact beq_self_eq_true _
  | set hmembers => exact eqWith_set_iff.2 hmembers
  | @list a b hsize hitems =>
    rw [eqWith_list_iff]
    by_cases hopen : (Container.list a, Container.list b) ∈ pairs
    · exact .inr (.inl hopen)
    · refine .inr (.inr ⟨hsize, fun i v' w' hv' hw' => ?_⟩)
      have hlt := Heap.unpaired_cons_lt
        (Heap.list_pair_mem (lt_size_of_item hv') (lt_size_of_item hw')) hopen
      exact eqIn_of_alike hR _ (hv.held (.item hv')) (hitems i v' w' hv' hw')
  | @map a b hkeys hentries =>
    rw [eqWith_map_iff]
    by_cases hopen : (Container.map a, Container.map b) ∈ pairs
    · exact .inr (.inl hopen)
    · refine .inr (.inr ⟨hkeys, fun k v' w' hv' hw' => ?_⟩)
      have hlt := Heap.unpaired_cons_lt
        (Heap.map_pair_mem (lt_size_of_entry hv') (lt_size_of_entry hw')) hopen
      exact eqIn_of_alike hR _ (hv.held (.entry hv')) (hentries k v' w' hv' hw')
  | @result a b isOk v' w' hpayload =>
    rw [eqWith, ← eqIn_eq, eqIn_of_alike hR pairs (hv.held (.payload ..)) hpayload]
    simp
termination_by (h.unpaired pairs, sizeOf v)

theorem equal_iff (hv : v.Comparable h made) (hw : w.Comparable h made) :
    v.equal h w = true ↔ Bisimilar h v w := by
  rw [equal_eq]
  constructor
  · exact fun heq => bisimilar_of_alikeWithin fun n => alikeWithin_of_eqIn hv hw heq nofun
  · exact fun ⟨R, hR, hvw⟩ => eqIn_of_alike hR [] hv hvw

/-- Comparing values to any depth is described by one equation, which is that of comparing them by a
bounded number of steps; what it finds of values without floats is whether they are bisimilar, so
that equality is an equivalence on them. -/
theorem equality_is_bisimilarity (h : Heap) (made : Nat → Bool × Value) :
    (∀ pairs v w, eqIn h pairs v w = eqWith h (eqIn h) pairs v w) ∧
    (∀ v w : Value, v.equal h w = eqIn h [] v w) ∧
    (∀ v w : Value, v.Comparable h made → w.Comparable h made →
      (v.equal h w = true ↔ Bisimilar h v w)) ∧
    (∀ v : Value, v.Comparable h made → v.equal h v = true) ∧
    (∀ v w : Value, v.Comparable h made → w.Comparable h made →
      v.equal h w = true → w.equal h v = true) ∧
    ∀ u v w : Value, u.Comparable h made → v.Comparable h made → w.Comparable h made →
      u.equal h v = true → v.equal h w = true → u.equal h w = true := by
  refine ⟨eqIn_eq h, equal_eq h, fun v w hv hw => equal_iff hv hw, fun v hv => ?_,
    fun v w hv hw heq => ?_, fun u v w hu hv hw huv hvw => ?_⟩
  · exact (equal_iff hv hv).2 (.refl h v)
  · exact (equal_iff hw hv).2 ((equal_iff hv hw).1 heq).symm
  · exact (equal_iff hu hw).2 (((equal_iff hu hv).1 huv).trans ((equal_iff hv hw).1 hvw))

/-! ### Lists that hold each other -/

/-- Two lists that hold each other and one that holds itself, all after the same number. -/
def loops : Heap :=
  ⟨#[#[.int 1, .list ⟨1⟩], #[.int 1, .list ⟨0⟩], #[.int 1, .list ⟨2⟩]], #[], #[], #[], 9⟩

/-- What is found among the lists of `loops` and in two results around them. -/
def InLoops : Value → Prop
  | .int n => n = 1
  | .list r => r.index < 3
  | .result id isOk payload => isOk = true ∧
    (id = 7 ∧ payload = .list ⟨0⟩ ∨ id = 8 ∧ payload = .list ⟨2⟩)
  | _ => False

theorem InLoops.held (hv : InLoops v) (hw : v.Holds loops w) : InLoops w := by
  cases hw with
  | @item r i w hw =>
    obtain ⟨r⟩ := r
    have hr : r < 3 := hv
    have hmem := Array.mem_of_getElem? hw
    have hitem : w = .int 1 ∨ ∃ k < 3, w = .list ⟨k⟩ := by
      obtain rfl | rfl | rfl : r = 0 ∨ r = 1 ∨ r = 2 := by omega
      · exact (show w = .int 1 ∨ w = .list ⟨1⟩ by simpa [loops, Heap.list] using hmem).imp_right
          fun hw => ⟨1, by decide, hw⟩
      · exact (show w = .int 1 ∨ w = .list ⟨0⟩ by simpa [loops, Heap.list] using hmem).imp_right
          fun hw => ⟨0, by decide, hw⟩
      · exact (show w = .int 1 ∨ w = .list ⟨2⟩ by simpa [loops, Heap.list] using hmem).imp_right
          fun hw => ⟨2, by decide, hw⟩
    obtain rfl | ⟨k, hk, rfl⟩ := hitem
    · exact rfl
    · exact hk
  | @entry r k w hw => cases hv
  | payload id isOk w =>
    obtain ⟨-, ⟨-, rfl⟩ | ⟨-, rfl⟩⟩ := hv <;> simp [InLoops]

theorem InLoops.comparable (hv : InLoops v) :
    v.Comparable loops fun id => (true, .list ⟨if id = 7 then 0 else 2⟩) := by
  have hin : ∀ w, v.Reaches loops w → InLoops w := by
    intro w hw
    induction hw with
    | refl => exact hv
    | tail _ hheld ih => exact ih.held hheld
  refine ⟨fun x hx => hin _ hx, fun id isOk payload hp => ?_⟩
  obtain ⟨rfl, ⟨rfl, rfl⟩ | ⟨rfl, rfl⟩⟩ := hin _ hp <;> rfl

/-- Results around the lists of `loops` are equal, though one holds two lists and the other one. -/
theorem loops_bisimilar :
    Bisimilar loops (.result 7 true (.list ⟨0⟩)) (.result 8 true (.list ⟨2⟩)) := by
  have hv : InLoops (.result 7 true (.list ⟨0⟩)) := ⟨rfl, .inl ⟨rfl, rfl⟩⟩
  have hw : InLoops (.result 8 true (.list ⟨2⟩)) := ⟨rfl, .inr ⟨rfl, rfl⟩⟩
  exact ((equality_is_bisimilarity loops _).2.2.1 _ _ hv.comparable hw.comparable).1
    (by decide +kernel)

end Value
end Ember
