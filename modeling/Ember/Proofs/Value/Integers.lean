import Mathlib.Algebra.Order.Ring.Abs
import Mathlib.Data.Int.Bitwise
import Mathlib.Data.Int.ModEq
import Ember.Value.Operators

/-! What the operators give on two integers, compared with integers that have no bounds. Whatever
integer they give is the exact result, and addition, subtraction, multiplication, division and
negation report an overflow just where the exact result has no 64 bits. Remainders and powers report
a few more. -/
namespace Ember
set_option autoImplicit false

/-! ## Exact results -/

/-- The integer is one of 64 bits. -/
def Fits64 (n : Int) : Prop := -2 ^ 63 ≤ n ∧ n < 2 ^ 63

instance (n : Int) : Decidable (Fits64 n) := inferInstanceAs (Decidable (_ ∧ _))

/-- Division of `a` by `b`: the quotient is rounded toward zero, and the remainder has the sign of
`a`. -/
structure Divides (a b quotient rest : Int) : Prop where
  sum : a = quotient * b + rest
  small : |rest| < |b|
  nonneg : 0 ≤ a → 0 ≤ rest
  nonpos : a ≤ 0 → rest ≤ 0

/-- The result of an operator on integers without bounds. Bits are those of two's complement, and a
shift to the left keeps 64 of them. -/
def BinaryOperator.Computes : BinaryOperator → Int → Int → Int → Prop
  | .add, a, b, r => r = a + b
  | .subtract, a, b, r => r = a - b
  | .multiply, a, b, r => r = a * b
  | .divide, a, b, r => ∃ rest, Divides a b r rest
  | .modulo, a, b, r => ∃ quotient, Divides a b quotient r
  | .power, a, b, r => 0 ≤ b ∧ r = a ^ b.toNat
  | .and, a, b, r => ∀ i, r.testBit i = (a.testBit i && b.testBit i)
  | .or, a, b, r => ∀ i, r.testBit i = (a.testBit i || b.testBit i)
  | .xor, a, b, r => ∀ i, r.testBit i = (a.testBit i ^^ b.testBit i)
  | .shiftLeft, a, b, r => (0 ≤ b ∧ b < 64) ∧ Fits64 r ∧ r ≡ a * 2 ^ b.toNat [ZMOD 2 ^ 64]
  | .shiftRight, a, b, r => (0 ≤ b ∧ b < 64) ∧ r * 2 ^ b.toNat ≤ a ∧ a < (r + 1) * 2 ^ b.toNat

/-! ## Integers of 64 bits -/

theorem fits64_toInt (x : Int64) : Fits64 x.toInt := ⟨x.le_toInt, x.toInt_lt⟩

theorem toInt_ofInt_of_fits64 {n : Int} (h : Fits64 n) : (Int64.ofInt n).toInt = n :=
  Int64.toInt_ofInt_of_le h.1 h.2

theorem int64?_of_fits64 {n : Int} (h : Fits64 n) : int64? n = some (Int64.ofInt n) := by
  obtain ⟨hlow, hhigh⟩ := h
  rw [int64?, if_pos (by omega)]

theorem int64?_eq_none_iff {n : Int} : int64? n = none ↔ ¬ Fits64 n := by
  constructor
  · intro h hfits
    rw [int64?_of_fits64 hfits] at h
    cases h
  · intro h
    rw [int64?, if_neg fun hbounds => h ⟨by omega, by omega⟩]

/-! ## Quotients and remainders -/

theorem tmod_nonpos {a : Int} (b : Int) (ha : a ≤ 0) : a.tmod b ≤ 0 := by
  have hneg := Int.tmod_nonneg b (Int.neg_nonneg_of_nonpos ha)
  rw [Int.neg_tmod] at hneg
  omega

theorem divides_tdiv {a b : Int} (hb : b ≠ 0) : Divides a b (a.tdiv b) (a.tmod b) := by
  refine ⟨(Int.tdiv_mul_add_tmod a b).symm, ?_, Int.tmod_nonneg b, tmod_nonpos b⟩
  rw [Int.abs_eq_natAbs, Int.abs_eq_natAbs, Int.natAbs_tmod]
  exact_mod_cast Nat.mod_lt _ (Int.natAbs_pos.2 hb)

theorem Divides.ne_zero {a b q r : Int} (h : Divides a b q r) : b ≠ 0 := by
  rintro rfl
  have := h.small
  rw [abs_zero] at this
  exact absurd (abs_nonneg r) (by omega)

/-- Only one quotient of 64-bit integers is out of range. -/
theorem fits64_tdiv_iff {a b : Int} (ha : Fits64 a) :
    Fits64 (a.tdiv b) ↔ ¬ (a = -2 ^ 63 ∧ b = -1) := by
  obtain ⟨hlow, hhigh⟩ := ha
  by_cases hb : b = -1
  · rw [hb, Int.tdiv_neg, Int.tdiv_one, Fits64]
    omega
  · have habs : (a.tdiv b).natAbs = a.natAbs / b.natAbs := Int.natAbs_tdiv a b
    have hfits : Fits64 (a.tdiv b) := by
      by_cases hone : b = 1
      · rw [hone, Int.tdiv_one]
        exact ⟨hlow, hhigh⟩
      · by_cases hzero : b = 0
        · rw [hzero, Int.tdiv_zero]
          exact ⟨by decide, by decide⟩
        · have hhalf : a.natAbs / b.natAbs ≤ a.natAbs / 2 :=
            Nat.div_le_div_left (by omega) (by decide)
          exact ⟨by omega, by omega⟩
    exact ⟨fun _ hleast => hb hleast.2, fun _ => hfits⟩

theorem fits64_tmod {a : Int} (ha : Fits64 a) (b : Int) : Fits64 (a.tmod b) := by
  obtain ⟨hlow, hhigh⟩ := ha
  have habs : (a.tmod b).natAbs = a.natAbs % b.natAbs := Int.natAbs_tmod a b
  have hle : a.natAbs % b.natAbs ≤ a.natAbs := Nat.mod_le _ _
  rcases Int.le_total 0 a with hsign | hsign
  · have hnonneg := Int.tmod_nonneg b hsign
    exact ⟨by omega, by omega⟩
  · have hnonpos := tmod_nonpos b hsign
    exact ⟨by omega, by omega⟩

/-! ## Powers -/

/-- The powers of 0, 1 and -1 repeat from the second one on. -/
theorem pow_repeats {x : Int} (hx : x = 0 ∨ x = 1 ∨ x = -1) (n : Nat) :
    x ^ (if n ≤ 2 then n else 2 + n % 2) = x ^ n := by
  split
  · rfl
  · rename_i hn
    obtain ⟨k, hk⟩ : ∃ k, n = 2 + n % 2 + 2 * k := ⟨(n - 2) / 2, by omega⟩
    have hsquare : x ^ (2 + n % 2) * (x ^ 2) ^ k = x ^ (2 + n % 2) := by
      rcases hx with rfl | rfl | rfl
      · rw [pow_add, zero_pow two_ne_zero, zero_mul, zero_mul]
      · rw [one_pow, one_pow, one_pow, mul_one]
      · rw [neg_one_sq, one_pow, mul_one]
    rw [← pow_mul, ← pow_add, ← hk] at hsquare
    exact hsquare.symm

theorem not_fits64_pow {x : Int} (hx : ¬ (x = 0 ∨ x = 1 ∨ x = -1)) {n : Nat} (hn : 63 < n) :
    ¬ Fits64 (x ^ n) := by
  have habs : 2 ^ 64 ≤ |x ^ n| := by
    have htwo : (2 : Int) ≤ |x| := by
      rw [Int.abs_eq_natAbs]
      omega
    calc (2 : Int) ^ 64 ≤ 2 ^ n := pow_le_pow_right₀ (by decide) hn
      _ ≤ |x| ^ n := pow_le_pow_left₀ (by decide) htwo n
      _ = |x ^ n| := (abs_pow x n).symm
  rintro ⟨hlow, hhigh⟩
  rcases abs_cases (x ^ n) with ⟨heq, -⟩ | ⟨heq, -⟩
  · omega
  · omega

theorem power?_eq (x : Int) {n : Nat} (hn : n < 2 ^ 32) : power? x n = int64? (x ^ n) := by
  have hlimit : ¬ 4294967295 < n := by omega
  rw [power?, if_neg hlimit]
  by_cases hx : x = 0 ∨ x = 1 ∨ x = -1
  · rw [if_pos (by simpa [or_assoc] using hx)]
    exact congrArg int64? (pow_repeats hx n)
  · rw [if_neg (by simpa [or_assoc] using hx)]
    split
    · exact (int64?_eq_none_iff.2 (not_fits64_pow hx ‹_›)).symm
    · rfl

theorem power?_eq_none (x : Int) {n : Nat} (hn : 2 ^ 32 ≤ n) : power? x n = none := by
  rw [power?, if_pos (by omega)]

/-! ## Bits and shifts -/

/-- Above its width the bits of a number go on with its sign. -/
theorem testBit_toInt {w : Nat} (b : BitVec w) (i : Nat) :
    b.toInt.testBit i = if i < w then b.getLsbD i else b.msb := by
  rw [BitVec.toInt_eq_msb_cond]
  cases hsign : b.msb with
  | false =>
    rw [if_neg Bool.false_ne_true]
    show b.toNat.testBit i = _
    split
    · rfl
    · rename_i hi
      exact BitVec.getLsbD_of_ge b i (Nat.le_of_not_lt hi)
  | true =>
    have hneg : (b.toNat : Int) - (2 ^ w : Nat) = .negSucc (2 ^ w - (b.toNat + 1)) := by
      have := b.isLt
      omega
    rw [if_pos rfl, hneg]
    show (!(2 ^ w - (b.toNat + 1)).testBit i) = _
    rw [Nat.testBit_two_pow_sub_succ b.isLt]
    split
    · rename_i hi
      rw [decide_eq_true hi, Bool.true_and, Bool.not_not]
      rfl
    · rename_i hi
      rw [decide_eq_false hi]
      rfl

section
variable {x y : Int64}

/-- Bits that are combined one by one in 64 places are combined so in all places. -/
theorem testBit_combined {z : Int64} {f : Bool → Bool → Bool}
    (hbits : ∀ i, z.toBitVec.getLsbD i = f (x.toBitVec.getLsbD i) (y.toBitVec.getLsbD i))
    (hsign : z.toBitVec.msb = f x.toBitVec.msb y.toBitVec.msb) (i : Nat) :
    z.toInt.testBit i = f (x.toInt.testBit i) (y.toInt.testBit i) := by
  rw [← Int64.toInt_toBitVec, ← Int64.toInt_toBitVec, ← Int64.toInt_toBitVec, testBit_toInt,
    testBit_toInt, testBit_toInt]
  split
  · exact hbits i
  · exact hsign

/-- A count of less than 64 is shifted by as it is. -/
theorem toNat_smod (hlow : 0 ≤ y.toInt) (hhigh : y.toInt < 64) :
    (y.toBitVec.smod 64).toNat = y.toInt.toNat := by
  have hmod : (y.toBitVec.smod 64).toInt = y.toInt := by
    rw [BitVec.toInt_smod, Int64.toInt_toBitVec]
    exact (Int.fmod_eq_emod_of_nonneg _ (by decide)).trans (Int.emod_eq_of_lt hlow hhigh)
  rw [← BitVec.toNat_toInt_of_msb, hmod]
  rw [BitVec.msb_eq_toInt, hmod]
  exact decide_eq_false (by omega)

theorem toInt_shiftRight (hlow : 0 ≤ y.toInt) (hhigh : y.toInt < 64) :
    (x >>> y).toInt = x.toInt / 2 ^ y.toInt.toNat := by
  rw [← Int64.toInt_toBitVec, Int64.toBitVec_shiftRight, BitVec.sshiftRight_eq',
    BitVec.toInt_sshiftRight, toNat_smod hlow hhigh, Int.shiftRight_eq_div_pow,
    Int64.toInt_toBitVec, Nat.cast_pow, Nat.cast_ofNat]

theorem toInt_shiftLeft (hlow : 0 ≤ y.toInt) (hhigh : y.toInt < 64) :
    (x <<< y).toInt ≡ x.toInt * 2 ^ y.toInt.toNat [ZMOD 2 ^ 64] := by
  have hx : (x.toBitVec.toNat : Int) ≡ x.toInt [ZMOD (2 ^ 64 : Nat)] := by
    rw [← Int64.toInt_toBitVec, BitVec.toInt_eq_toNat_bmod]
    exact Int.bmod_emod.symm
  rw [← Int64.toInt_toBitVec, Int64.toBitVec_shiftLeft, BitVec.shiftLeft_eq',
    BitVec.toInt_shiftLeft, toNat_smod hlow hhigh, Nat.shiftLeft_eq, Nat.cast_mul, Nat.cast_pow,
    Nat.cast_ofNat]
  exact (Int.bmod_emod (m := 2 ^ 64)).trans (hx.mul_right _)

end

/-! ## Outcomes -/

/-- An operator on two integers reports an overflow. -/
def BinaryOperator.Overflows : BinaryOperator → Int → Int → Prop
  | .add, a, b => ¬ Fits64 (a + b)
  | .subtract, a, b => ¬ Fits64 (a - b)
  | .multiply, a, b => ¬ Fits64 (a * b)
  | .divide, a, b | .modulo, a, b => b ≠ 0 ∧ ¬ Fits64 (a.tdiv b)
  | .power, a, b => 0 ≤ b ∧ (¬ Fits64 (a ^ b.toNat) ∨ 2 ^ 32 ≤ b)
  | _, _, _ => False

/-- All that an operator can do with two integers. -/
inductive IntegerOutcome (op : BinaryOperator) (x y : Int64) : Except Fault Value → Prop
  | exact {r : Int64} (hr : op.Computes x.toInt y.toInt r.toInt)
    (hfits : ¬ op.Overflows x.toInt y.toInt) : IntegerOutcome op x y (.ok (.int r))
  | float (z : Float) (hop : op = .power) (hy : y.toInt < 0) :
    IntegerOutcome op x y (.ok (.float z))
  | zero (hop : op = .divide ∨ op = .modulo) (hy : y.toInt = 0) :
    IntegerOutcome op x y (.error .divisionByZero)
  | count (hop : op = .shiftLeft ∨ op = .shiftRight) (hy : y.toInt < 0 ∨ 64 ≤ y.toInt) :
    IntegerOutcome op x y (.error (.shiftOutOfRange y.toInt))
  | overflow (h : op.Overflows x.toInt y.toInt) :
    IntegerOutcome op x y (.error (.integerOverflow op.symbol))

/-- The result of an operator, if it is one of 64 bits. -/
def fitted (op : BinaryOperator) : Option Int64 → Except Fault Value
  | some r => .ok (.int r)
  | none => .error (.integerOverflow op.symbol)

section
variable {op : BinaryOperator} {x y : Int64}

theorem outcome_fitted {r : Option Int64}
    (hsome : ∀ k, r = some k → op.Computes x.toInt y.toInt k.toInt)
    (hnone : r = none ↔ op.Overflows x.toInt y.toInt) : IntegerOutcome op x y (fitted op r) := by
  cases r with
  | some k => exact .exact (hsome k rfl) fun hover => nomatch hnone.2 hover
  | none => exact .overflow (hnone.1 rfl)

theorem integerOp_of_eq_zero (hop : op = .divide ∨ op = .modulo) (hy : y.toInt = 0) :
    integerOp op x y = .error .divisionByZero := by
  rcases hop with rfl | rfl <;> exact if_pos (beq_iff_eq.2 hy)

theorem integerOp_of_count (hop : op = .shiftLeft ∨ op = .shiftRight)
    (hy : y.toInt < 0 ∨ 64 ≤ y.toInt) : integerOp op x y = .error (.shiftOutOfRange y.toInt) := by
  have hcount : (decide (y.toInt < 0) || decide (64 ≤ y.toInt)) = true := by simpa using hy
  rcases hop with rfl | rfl <;> exact if_pos hcount

theorem outcome_divide : IntegerOutcome .divide x y (integerOp .divide x y) := by
  by_cases hy : y.toInt = 0
  · rw [integerOp_of_eq_zero (.inl rfl) hy]
    exact .zero (.inl rfl) hy
  · have heq : integerOp .divide x y = fitted .divide (int64? (x.toInt.tdiv y.toInt)) :=
      if_neg (mt beq_iff_eq.1 hy)
    rw [heq]
    refine outcome_fitted (fun k hk => ?_) (int64?_eq_none_iff.trans (and_iff_right hy).symm)
    rw [toInt_of_int64? hk]
    exact ⟨_, divides_tdiv hy⟩

theorem outcome_modulo : IntegerOutcome .modulo x y (integerOp .modulo x y) := by
  by_cases hy : y.toInt = 0
  · rw [integerOp_of_eq_zero (.inr rfl) hy]
    exact .zero (.inr rfl) hy
  · have heq : integerOp .modulo x y = fitted .modulo ((int64? (x.toInt.tdiv y.toInt)).map fun _ =>
        Int64.ofInt (x.toInt.tmod y.toInt)) :=
      if_neg (mt beq_iff_eq.1 hy)
    rw [heq]
    refine outcome_fitted (fun k hk => ?_) (Option.map_eq_none_iff.trans
      (int64?_eq_none_iff.trans (and_iff_right hy).symm))
    obtain ⟨_, -, rfl⟩ := Option.map_eq_some_iff.1 hk
    rw [toInt_ofInt_of_fits64 (fits64_tmod (fits64_toInt x) _)]
    exact ⟨_, divides_tdiv hy⟩

theorem outcome_power : IntegerOutcome .power x y (integerOp .power x y) := by
  by_cases hy : y.toInt < 0
  · have heq : integerOp .power x y = .ok (.float (x.toFloat.pow y.toFloat)) := if_pos hy
    rw [heq]
    exact .float _ rfl hy
  · have heq : integerOp .power x y = fitted .power (power? x.toInt y.toInt.toNat) := if_neg hy
    have hnonneg : 0 ≤ y.toInt := Int.not_lt.1 hy
    rw [heq]
    by_cases hlarge : 2 ^ 32 ≤ y.toInt
    · rw [power?_eq_none _ (by omega)]
      exact .overflow ⟨hnonneg, .inr hlarge⟩
    · rw [power?_eq _ (by omega)]
      refine outcome_fitted (fun k hk => ⟨hnonneg, toInt_of_int64? hk⟩) ?_
      exact int64?_eq_none_iff.trans
        ⟨fun hover => ⟨hnonneg, .inl hover⟩, fun hover => hover.2.resolve_right hlarge⟩

theorem outcome_shiftLeft : IntegerOutcome .shiftLeft x y (integerOp .shiftLeft x y) := by
  by_cases hy : y.toInt < 0 ∨ 64 ≤ y.toInt
  · rw [integerOp_of_count (.inl rfl) hy]
    exact .count (.inl rfl) hy
  · have heq : integerOp .shiftLeft x y = .ok (.int (x <<< y)) := if_neg (by simpa using hy)
    rw [heq]
    exact .exact ⟨by omega, fits64_toInt _, toInt_shiftLeft (by omega) (by omega)⟩ id

theorem outcome_shiftRight : IntegerOutcome .shiftRight x y (integerOp .shiftRight x y) := by
  by_cases hy : y.toInt < 0 ∨ 64 ≤ y.toInt
  · rw [integerOp_of_count (.inr rfl) hy]
    exact .count (.inr rfl) hy
  · have heq : integerOp .shiftRight x y = .ok (.int (x >>> y)) := if_neg (by simpa using hy)
    rw [heq]
    have hpos : (0 : Int) < 2 ^ y.toInt.toNat := pow_pos (by decide) _
    refine .exact ⟨by omega, ?_, ?_⟩ id
    · rw [toInt_shiftRight (by omega) (by omega)]
      exact Int.ediv_mul_le _ hpos.ne'
    · rw [toInt_shiftRight (by omega) (by omega)]
      exact Int.lt_ediv_add_one_mul_self _ hpos

end

theorem integerOp_outcome (op : BinaryOperator) (x y : Int64) :
    IntegerOutcome op x y (integerOp op x y) := by
  cases op with
  | add | subtract | multiply =>
    exact outcome_fitted (fun _ => toInt_of_int64?) int64?_eq_none_iff
  | divide => exact outcome_divide
  | modulo => exact outcome_modulo
  | power => exact outcome_power
  | and => exact .exact (testBit_combined (fun _ => BitVec.getLsbD_and) BitVec.msb_and) id
  | or => exact .exact (testBit_combined (fun _ => BitVec.getLsbD_or) BitVec.msb_or) id
  | xor => exact .exact (testBit_combined (fun _ => BitVec.getLsbD_xor) BitVec.msb_xor) id
  | shiftLeft => exact outcome_shiftLeft
  | shiftRight => exact outcome_shiftRight

/-! ## Operators on two integers -/

section
variable {op : BinaryOperator} {x y : Int64} {h : Heap} {r : Int}

/-- Two integers are combined by themselves, whatever is on the heap. -/
theorem binary_int (op : BinaryOperator) (x y : Int64) (h : Heap) :
    binary op (.int x) (.int y) h = match integerOp op x y with
      | .ok r => .ok r h
      | .error fault => .error fault h := by
  have hself : binary op (.int x) (.int y) = match integerOp op x y with
      | .ok r => pure r
      | .error fault => throw fault := by
    cases op <;> rfl
  rw [hself]
  cases integerOp op x y <;> rfl

theorem computes_of_binary {k : Int64} {h' : Heap}
    (hok : binary op (.int x) (.int y) h = .ok (.int k) h') :
    op.Computes x.toInt y.toInt k.toInt := by
  have hout := integerOp_outcome op x y
  rw [binary_int] at hok
  generalize integerOp op x y = result at hok hout
  cases hout with
  | exact hr => cases hok; exact hr
  | float | zero | count | overflow => cases hok

/-- An operator that is defined gives a result or reports an overflow. -/
theorem binary_of_computes (hr : op.Computes x.toInt y.toInt r) :
    (¬ op.Overflows x.toInt y.toInt ∧ ∃ k, binary op (.int x) (.int y) h = .ok (.int k) h) ∨
      op.Overflows x.toInt y.toInt ∧
        binary op (.int x) (.int y) h = .error (.integerOverflow op.symbol) h := by
  have hout := integerOp_outcome op x y
  rw [binary_int]
  generalize integerOp op x y = result at hout
  cases hout with
  | exact _ hfits => exact .inl ⟨hfits, _, rfl⟩
  | overflow hover => exact .inr ⟨hover, rfl⟩
  | float z hop hy =>
    subst hop
    exact absurd hr.1 (Int.not_le.2 hy)
  | zero hop hy =>
    rcases hop with rfl | rfl <;> exact absurd hy hr.choose_spec.ne_zero
  | count hop hy =>
    obtain ⟨hlow, hhigh⟩ : 0 ≤ y.toInt ∧ y.toInt < 64 := by
      rcases hop with rfl | rfl <;> exact hr.1
    omega

theorem binary_overflow_iff (op : BinaryOperator) (hr : op.Computes x.toInt y.toInt r) :
    binary op (.int x) (.int y) h = .error (.integerOverflow op.symbol) h ↔
      op.Overflows x.toInt y.toInt := by
  rcases binary_of_computes (h := h) hr with ⟨hfits, k, hok⟩ | ⟨hover, herror⟩
  · rw [hok]
    exact ⟨nofun, fun hover => absurd hover hfits⟩
  · exact ⟨fun _ => hover, fun _ => herror⟩

theorem negate_int (x : Int64) :
    (Fits64 (-x.toInt) ∧ negate (.int x) = .ok (.int (.ofInt (-x.toInt)))) ∨
      ¬ Fits64 (-x.toInt) ∧ negate (.int x) = .error (.integerOverflow "-") := by
  by_cases hfits : Fits64 (-x.toInt)
  · refine .inl ⟨hfits, ?_⟩
    rw [negate, int64?_of_fits64 hfits]
  · refine .inr ⟨hfits, ?_⟩
    rw [negate, int64?_eq_none_iff.2 hfits]

end

/-- Whatever integer an operator gives for two integers is the exact result. -/
theorem integers_computed_exactly (x y : Int64) (h : Heap) :
    (∀ op k h', binary op (.int x) (.int y) h = .ok (.int k) h' →
      op.Computes x.toInt y.toInt k.toInt) ∧
    (∀ op r, op.Computes x.toInt y.toInt r →
      (∃ k, binary op (.int x) (.int y) h = .ok (.int k) h) ∨
        binary op (.int x) (.int y) h = .error (.integerOverflow op.symbol) h) ∧
    (∀ op ∈ [BinaryOperator.add, .subtract, .multiply], ∃ r, op.Computes x.toInt y.toInt r ∧
      (binary op (.int x) (.int y) h = .error (.integerOverflow op.symbol) h ↔ ¬ Fits64 r)) ∧
    (∀ op ∈ [BinaryOperator.divide, .modulo], y.toInt = 0 →
      ∃ fault, binary op (.int x) (.int y) h = .error fault h ∧
        fault.message = "division by zero") ∧
    (∀ op ∈ [BinaryOperator.shiftLeft, .shiftRight], ¬ (0 ≤ y.toInt ∧ y.toInt ≤ 63) →
      binary op (.int x) (.int y) h = .error (.shiftOutOfRange y.toInt) h) ∧
    (negate (.int x) = .error (.integerOverflow "-") ↔ ¬ Fits64 (-x.toInt)) ∧
    (∀ k, negate (.int x) = .ok (.int k) → k.toInt = -x.toInt) := by
  refine ⟨fun op k h' => computes_of_binary, fun op r hr => ?_, fun op hop => ?_,
    fun op hop hy => ?_, fun op hop hy => ?_, ?_, fun k hk => ?_⟩
  · rcases binary_of_computes (h := h) hr with ⟨-, hok⟩ | ⟨-, hover⟩
    · exact .inl hok
    · exact .inr hover
  · simp only [List.mem_cons, List.not_mem_nil, or_false] at hop
    rcases hop with rfl | rfl | rfl
    · exact ⟨_, rfl, binary_overflow_iff .add rfl⟩
    · exact ⟨_, rfl, binary_overflow_iff .subtract rfl⟩
    · exact ⟨_, rfl, binary_overflow_iff .multiply rfl⟩
  · refine ⟨.divisionByZero, ?_, rfl⟩
    rw [binary_int, integerOp_of_eq_zero (by simpa using hop) hy]
  · rw [binary_int, integerOp_of_count (by simpa using hop) (by omega)]
  · rcases negate_int x with ⟨hfits, hok⟩ | ⟨hfits, herror⟩
    · rw [hok]
      exact ⟨nofun, fun hover => absurd hfits hover⟩
    · exact ⟨fun _ => hfits, fun _ => herror⟩
  · rcases negate_int x with ⟨hfits, hok⟩ | ⟨-, herror⟩
    · rw [hok] at hk
      cases hk
      exact toInt_ofInt_of_fits64 hfits
    · rw [herror] at hk
      cases hk

/-- A shift into the sign keeps what is left of 64 bits. -/
theorem integers_computed_exactly_into_sign :
    binary .shiftLeft (.int 3) (.int 63) .empty = .ok (.int Int64.minValue) .empty ∧
      BinaryOperator.shiftLeft.Computes 3 63 (-2 ^ 63) :=
  ⟨rfl, (integers_computed_exactly 3 63 .empty).1 .shiftLeft Int64.minValue .empty rfl⟩

/-! ## Overflows that are none -/

/-- Division reports an overflow just where the quotient is out of range; so does the remainder,
which is in range there. A power is refused where it is out of range, and also for all exponents
that have no 32 bits. -/
theorem overflow_reported_iff (x y : Int64) (h : Heap) :
    (y.toInt ≠ 0 → ∃ q rest, Divides x.toInt y.toInt q rest ∧ Fits64 rest ∧
      (binary .divide (.int x) (.int y) h = .error (.integerOverflow "/") h ↔ ¬ Fits64 q) ∧
      (binary .modulo (.int x) (.int y) h = .error (.integerOverflow "%") h ↔
        x.toInt = -2 ^ 63 ∧ y.toInt = -1)) ∧
    (0 ≤ y.toInt →
      (binary .power (.int x) (.int y) h = .error (.integerOverflow "**") h ↔
        ¬ Fits64 (x.toInt ^ y.toInt.toNat) ∨
          2 ^ 32 ≤ y.toInt ∧ (x.toInt = 0 ∨ x.toInt = 1 ∨ x.toInt = -1))) := by
  refine ⟨fun hy => ?_, fun hy => ?_⟩
  · have hdivides := divides_tdiv (a := x.toInt) hy
    have hquotient := fits64_tdiv_iff (b := y.toInt) (fits64_toInt x)
    refine ⟨_, _, hdivides, fits64_tmod (fits64_toInt x) _, ?_, ?_⟩
    · exact (binary_overflow_iff .divide ⟨_, hdivides⟩).trans (and_iff_right hy)
    · refine (binary_overflow_iff .modulo ⟨_, hdivides⟩).trans
        ((and_iff_right hy).trans ?_)
      rw [hquotient, not_not]
  · refine (binary_overflow_iff .power ⟨hy, rfl⟩).trans ((and_iff_right hy).trans ?_)
    by_cases hx : x.toInt = 0 ∨ x.toInt = 1 ∨ x.toInt = -1
    · rw [and_iff_left hx]
    · constructor
      · rintro (hover | hlarge)
        · exact .inl hover
        · exact .inl (not_fits64_pow hx (by omega))
      · rintro (hover | ⟨-, hx'⟩)
        · exact .inl hover
        · exact absurd hx' hx

theorem overflow_reported_iff_first_power :
    (0 : Int) ≤ Int64.toInt 63 ∧ ¬ Fits64 (Int64.toInt 2 ^ (Int64.toInt 63).toNat) ∧
      binary .power (.int 2) (.int 63) .empty = .error (.integerOverflow "**") .empty :=
  ⟨by decide, by decide, ((overflow_reported_iff 2 63 .empty).2 (by decide)).2 (.inl (by decide))⟩

/-- The least integer leaves no rest when it is divided by -1, and all powers of 1 are 1, and yet
both are refused. -/
theorem overflow_without_cause :
    (BinaryOperator.modulo.Computes (-2 ^ 63) (-1) 0 ∧ Fits64 0 ∧
      binary .modulo (.int Int64.minValue) (.int (-1)) .empty =
        .error (.integerOverflow "%") .empty) ∧
    (BinaryOperator.power.Computes 1 (2 ^ 32) 1 ∧ Fits64 1 ∧
      binary .power (.int 1) (.int 4294967296) .empty = .error (.integerOverflow "**") .empty) :=
  ⟨⟨⟨2 ^ 63, by decide, by decide, by decide, by decide⟩, by decide, rfl⟩,
    ⟨by decide, (one_pow _).symm⟩, by decide, rfl⟩

end Ember
