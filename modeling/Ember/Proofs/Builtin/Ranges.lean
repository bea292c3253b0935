import Mathlib.Data.Rat.Floor
import Ember.Builtin.Core
import Ember.Proofs.Value.Integers

/-! The builtin `range`. The terms are counted before they are made, with integers that have no
bounds, and then made one by one until the next one would pass the stop or have no 64 bits. Both
ways give the same number of terms, up to either end of the integers. -/
namespace Ember
open CoreFunction (rangeCount rangeHolds rangeFrom rangeItems rangeArguments)
set_option autoImplicit false

/-! ## The number of terms -/

/-- The steps between two integers, rounded up; none if they lead away from the second. -/
def stepsBetween (start stop step : Int) : Int := max 0 ⌈((stop : ℚ) - start) / step⌉

section
variable {start stop step : Int}

theorem rangeCount_of_nonpos (h : (stop - start) * step.sign ≤ 0) :
    rangeCount start stop step = 0 := by
  rw [rangeCount]
  exact if_pos h

theorem rangeCount_of_pos (h : 0 < (stop - start) * step.sign) :
    rangeCount start stop step =
      ((stop - start) * step.sign + step.natAbs - 1) / step.natAbs := by
  rw [rangeCount]
  exact if_neg (Int.not_le.2 h)

theorem natAbs_pos_of_pos (h : 0 < (stop - start) * step.sign) : (0 : Int) < step.natAbs := by
  have hstep : step ≠ 0 := by
    rintro rfl
    rw [Int.sign_zero, Int.mul_zero] at h
    exact Int.lt_irrefl 0 h
  exact_mod_cast Int.natAbs_pos.2 hstep

/-- A quotient does not depend on the direction in which both its parts are measured. -/
theorem div_eq_span_div (hstep : step ≠ 0) :
    ((stop : ℚ) - start) / step =
      (((stop - start) * step.sign : Int) : ℚ) / (step.natAbs : Int) := by
  have hsign : (step.sign : ℚ) ≠ 0 := by exact_mod_cast mt Int.sign_eq_zero_iff_zero.1 hstep
  rw [← Int.mul_sign_self, Int.cast_mul, Int.cast_mul, Int.cast_sub, mul_div_mul_right _ _ hsign]

/-- Rounding a quotient up, with a division that rounds down. -/
theorem ceil_div {a d : Int} (hd : 0 < d) : ⌈(a : ℚ) / (d : Int)⌉ = (a + d - 1) / d := by
  have hd' : (0 : ℚ) < (d : Int) := by exact_mod_cast hd
  generalize hcount : (a + d - 1) / d = count
  have hlow : count * d ≤ a + d - 1 := hcount ▸ Int.ediv_mul_le _ hd.ne'
  have hhigh : a + d - 1 < (count + 1) * d := hcount ▸ Int.lt_ediv_add_one_mul_self _ hd
  rw [Int.add_mul] at hhigh
  rw [Int.ceil_eq_iff, lt_div_iff₀ hd', div_le_iff₀ hd', sub_mul]
  constructor
  · exact_mod_cast (by omega : count * d - 1 * d < a)
  · exact_mod_cast (by omega : a ≤ count * d)

theorem rangeCount_eq (hstep : step ≠ 0) :
    rangeCount start stop step = stepsBetween start stop step := by
  have hpos : (0 : Int) < step.natAbs := by exact_mod_cast Int.natAbs_pos.2 hstep
  have hpos' : (0 : ℚ) < (step.natAbs : Int) := by exact_mod_cast hpos
  rw [stepsBetween, div_eq_span_div hstep]
  by_cases hspan : (stop - start) * step.sign ≤ 0
  · rw [rangeCount_of_nonpos hspan]
    refine (max_eq_left (Int.ceil_nonpos.2 ?_)).symm
    exact div_nonpos_of_nonpos_of_nonneg (by exact_mod_cast hspan) hpos'.le
  · have hspan : 0 < (stop - start) * step.sign := by omega
    rw [rangeCount_of_pos hspan, ← ceil_div hpos]
    refine (max_eq_right (Int.ceil_pos.2 ?_).le).symm
    exact div_pos (by exact_mod_cast hspan) hpos'

/-- One step ahead there is one term less. -/
theorem rangeCount_step (h : 0 < (stop - start) * step.sign) :
    rangeCount start stop step = rangeCount (start + step) stop step + 1 := by
  have hpos := natAbs_pos_of_pos h
  have hahead : (stop - (start + step)) * step.sign =
      (stop - start) * step.sign - step.natAbs := by
    rw [← Int.mul_sign_self, ← Int.sub_sub, Int.sub_mul _ step]
  have hround : (stop - start) * step.sign + step.natAbs - 1 =
      ((stop - start) * step.sign - 1) + step.natAbs * 1 := by omega
  rw [rangeCount_of_pos h, hround, Int.add_mul_ediv_left _ _ hpos.ne']
  by_cases hlast : (stop - start) * step.sign ≤ step.natAbs
  · rw [rangeCount_of_nonpos (by omega), Int.ediv_eq_zero_of_lt (by omega) (by omega)]
  · rw [rangeCount_of_pos (by omega), hahead, Int.sub_add_cancel]

end

/-! ## The terms -/

section
variable {stop step i : Int64}

theorem rangeHolds_iff :
    rangeHolds stop step i = true ↔ 0 < (stop.toInt - i.toInt) * step.toInt.sign := by
  simp only [rangeHolds, Bool.or_eq_true, Bool.and_eq_true, decide_eq_true_eq,
    Int64.lt_iff_toInt_lt, Int64.toInt_zero]
  rcases Int.lt_trichotomy step.toInt 0 with hstep | hstep | hstep
  · rw [Int.sign_eq_neg_one_of_neg hstep]
    omega
  · rw [hstep, Int.sign_zero]
    omega
  · rw [Int.sign_eq_one_of_pos hstep]
    omega

/-- A step out of the integers of 64 bits leads to the stop or past it. -/
theorem rangeCount_of_not_fits (h : rangeHolds stop step i = true)
    (hover : ¬ Fits64 (i.toInt + step.toInt)) :
    rangeCount (i.toInt + step.toInt) stop.toInt step.toInt = 0 := by
  have hi := fits64_toInt i
  have hstop := fits64_toInt stop
  rw [Fits64] at hi hstop hover
  have hspan := rangeHolds_iff.1 h
  refine rangeCount_of_nonpos ?_
  rcases Int.lt_trichotomy step.toInt 0 with hstep | hstep | hstep
  · rw [Int.sign_eq_neg_one_of_neg hstep] at hspan ⊢
    omega
  · rw [hstep, Int.sign_zero, Int.mul_zero] at hspan
    omega
  · rw [Int.sign_eq_one_of_pos hstep] at hspan ⊢
    omega

/-- The values are integers, each `step` further than the one before. -/
def Progression (first step : Int) (vs : List Value) : Prop :=
  ∀ k (hk : k < vs.length), ∃ n : Int64, vs[k] = .int n ∧ n.toInt = first + k * step

theorem Progression.cons {first step : Int} {vs : List Value} {n : Int64} (hn : n.toInt = first)
    (h : Progression (first + step) step vs) : Progression first step (.int n :: vs) := by
  intro k hk
  cases k with
  | zero => exact ⟨n, rfl, by simp [hn]⟩
  | succ k =>
    obtain ⟨m, hm, hterm⟩ := h k (Nat.lt_of_succ_lt_succ hk)
    refine ⟨m, hm, ?_⟩
    rw [hterm, Nat.cast_succ, Int.add_mul]
    omega

/-- From each term on, the loop makes as many terms as are counted from there. -/
theorem rangeFrom_eq (stop step i : Int64) (found : Array Value) :
    ∃ vs, (rangeFrom stop step i found).toList = found.toList ++ vs ∧
      (vs.length : Int) = rangeCount i.toInt stop.toInt step.toInt ∧
        Progression i.toInt step.toInt vs := by
  fun_induction rangeFrom stop step i found with
  | case1 i found hholds next hnext ih =>
    obtain ⟨vs, hvs, hlength, hterms⟩ := ih
    have hsum : next.toInt = i.toInt + step.toInt := toInt_of_int64? hnext
    rw [hsum] at hlength hterms
    refine ⟨.int i :: vs, by simp [hvs], ?_, hterms.cons rfl⟩
    rw [rangeCount_step (rangeHolds_iff.1 hholds), ← hlength, List.length_cons, Nat.cast_succ]
  | case2 i found hholds hnext =>
    have hover := int64?_eq_none_iff.1 hnext
    refine ⟨[.int i], Array.toList_push, ?_, Progression.cons rfl nofun⟩
    rw [rangeCount_step (rangeHolds_iff.1 hholds), rangeCount_of_not_fits hholds hover]
    rfl
  | case3 i found hholds =>
    refine ⟨[], (List.append_nil _).symm, ?_, nofun⟩
    rw [rangeCount_of_nonpos (Int.not_lt.1 (mt rangeHolds_iff.2 hholds))]
    rfl

end

/-! ## Calls -/

/-- The terms from `start` by `step` up to `stop`: as many as there are steps between them, each in
its place. -/
def RangeOf (start stop step : Int64) (items : Array Value) : Prop :=
  (items.size : Int) = stepsBetween start.toInt stop.toInt step.toInt ∧
    Progression start.toInt step.toInt items.toList

theorem toInt_ne_zero {step : Int64} (hstep : step ≠ 0) : step.toInt ≠ 0 :=
  fun hzero => hstep (Int64.toInt_inj.1 hzero)

theorem rangeOf_rangeFrom {start stop step : Int64} (hstep : step ≠ 0) :
    RangeOf start stop step (rangeFrom stop step start #[]) := by
  obtain ⟨vs, hvs, hlength, hterms⟩ := rangeFrom_eq stop step start #[]
  obtain rfl : (rangeFrom stop step start #[]).toList = vs := hvs
  exact ⟨by rw [← rangeCount_eq (toInt_ne_zero hstep), ← hlength, Array.length_toList], hterms⟩

theorem rangeItems_eq {start stop step : Int64} (hstep : step ≠ 0) :
    rangeItems start stop step =
      if 2 ^ 28 < stepsBetween start.toInt stop.toInt step.toInt then
        .error (.rangeTooLarge (stepsBetween start.toInt stop.toInt step.toInt))
      else .ok (rangeFrom stop step start #[]) := by
  rw [rangeItems, if_neg hstep, rangeCount_eq (toInt_ne_zero hstep)]
  rfl

/-- A call of `range` looks at nothing but its arguments, and makes one list. -/
theorem call_range {args : Array Value} {start stop step : Int64}
    (hargs : rangeArguments args = .ok (start, stop, step)) (h : Heap) :
    CoreFunction.range.call args h = match rangeItems start stop step with
      | .ok items => .ok (.list (h.newList items).1) (h.newList items).2
      | .error e => .error e h := by
  have hask : CoreFunction.range.call args =
      ask (fun _ => rangeArguments args >>= fun (found : Int64 × Int64 × Int64) =>
        rangeItems found.1 found.2.1 found.2.2) >>= OnHeap.newList := rfl
  rw [hask, hargs]
  show EStateM.bind (ask fun _ => rangeItems start stop step) OnHeap.newList h = _
  rw [EStateM.bind, ask]
  cases rangeItems start stop step <;> rfl

/-- A range has as many terms as there are steps from its start to its stop, each in its place; it
is refused just if these are more than 2^28. The loop that makes them counts on its own, and would
make as many without the limit. -/
theorem range_is_exact (start stop step : Int64) (hstep : step ≠ 0) (h : Heap) :
    let count := stepsBetween start.toInt stop.toInt step.toInt
    (2 ^ 28 < count → CoreFunction.range.call #[.int start, .int stop, .int step] h =
      .error (.rangeTooLarge count) h) ∧
    (count ≤ 2 ^ 28 → ∃ items, RangeOf start stop step items ∧
      CoreFunction.range.call #[.int start, .int stop, .int step] h =
        .ok (.list (h.newList items).1) (h.newList items).2) ∧
    rangeCount start.toInt stop.toInt step.toInt = count ∧
    RangeOf start stop step (rangeFrom stop step start #[]) ∧
    CoreFunction.range.call #[.int start, .int stop] h =
      CoreFunction.range.call #[.int start, .int stop, .int 1] h ∧
    CoreFunction.range.call #[.int stop] h =
      CoreFunction.range.call #[.int 0, .int stop, .int 1] h := by
  have hthree : ∀ start step : Int64,
      rangeArguments #[.int start, .int stop, .int step] = .ok (start, stop, step) :=
    fun _ _ => rfl
  have htwo : rangeArguments #[.int start, .int stop] = .ok (start, stop, 1) := rfl
  have hone : rangeArguments #[.int stop] = .ok (0, stop, 1) := rfl
  have hcall := call_range (hthree start step) h
  rw [rangeItems_eq hstep] at hcall
  refine ⟨fun hmany => ?_, fun hfew => ⟨_, rangeOf_rangeFrom hstep, ?_⟩,
    rangeCount_eq (toInt_ne_zero hstep), rangeOf_rangeFrom hstep, ?_, ?_⟩
  · rw [hcall, if_pos hmany]
  · rw [hcall, if_neg (Int.not_lt.2 hfew)]
  · rw [call_range htwo, call_range (hthree start 1)]
  · rw [call_range hone, call_range (hthree 0 1)]

/-- Next to the greatest integer the loop ends because the next term has no 64 bits; from the least
to the greatest there are too many terms. -/
theorem range_is_exact_at_ends :
    (5 : Int64) ≠ 0 ∧
      CoreFunction.range.call
          #[.int (Int64.maxValue - 1), .int Int64.maxValue, .int 5] .empty =
        .ok (.list ⟨0⟩) { Heap.empty with lists := #[#[.int (Int64.maxValue - 1)]] } ∧
      CoreFunction.range.call #[.int Int64.minValue, .int Int64.maxValue, .int 1] .empty =
        .error (.rangeTooLarge (2 ^ 64 - 1)) .empty := by
  have hstep : (5 : Int64) ≠ 0 := by decide
  refine ⟨hstep, ?_, ?_⟩
  · have hcount :
        stepsBetween (Int64.maxValue - 1).toInt Int64.maxValue.toInt (5 : Int64).toInt = 1 := by
      rw [← rangeCount_eq (by decide)]
      decide
    obtain ⟨-, hfew, -⟩ := range_is_exact (Int64.maxValue - 1) Int64.maxValue 5 hstep .empty
    obtain ⟨⟨items⟩, ⟨hsize, hterms⟩, hcall⟩ := hfew (by rw [hcount]; decide)
    have hlength : items.length = 1 := by exact_mod_cast hsize.trans hcount
    obtain ⟨v, rfl⟩ := List.length_eq_one_iff.1 hlength
    obtain ⟨n, rfl, hn⟩ := hterms 0 Nat.one_pos
    obtain rfl : n = Int64.maxValue - 1 := Int64.toInt_inj.1 hn
    exact hcall
  · have hcount :
        stepsBetween Int64.minValue.toInt Int64.maxValue.toInt (1 : Int64).toInt = 2 ^ 64 - 1 := by
      rw [← rangeCount_eq (by decide)]
      decide
    obtain ⟨hmany, -⟩ := range_is_exact Int64.minValue Int64.maxValue 1 (by decide) .empty
    rw [hcount] at hmany
    exact hmany (by decide)

end Ember
