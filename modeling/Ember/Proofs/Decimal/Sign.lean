import Ember.Compile.Compiler
import Ember.Decimal.Reader

/-! Numbers without a sign. Decimals that are read have none, so among them no zero is negative, and
numbers that the compiler takes for the same constant are the same. -/
namespace Ember
set_option autoImplicit false

open Float.Model Float.Model.UnpackedFloat

/-! ## Signs of doubles -/

/-- The sign bit of the number is not set. -/
def Unsigned (x : Float) : Prop := x.toBits.toBitVec.msb = false

/-- The number is not negative, nor a negative zero. -/
def Positive : UnpackedFloat → Prop
  | .notANumber => True
  | .infinity sign | .zero sign | .finite sign .. => sign = .positive

theorem msb_packComponents (exponent : BitVec 11) (mantissa : BitVec 52) :
    (packComponents Format.binary64 .positive exponent mantissa).msb = false := by
  unfold packComponents
  rw [BitVec.msb_append, BitVec.msb_append]
  rfl

theorem msb_pack {u : UnpackedFloat} (h : Positive u) :
    (UnpackedFloat.pack Format.binary64 u).msb = false := by
  unfold UnpackedFloat.pack
  split
  · exact msb_packComponents _ _
  · rw [show _ = Sign.positive from h]
    exact msb_packComponents _ _
  · rw [show _ = Sign.positive from h]
    exact msb_packComponents _ _
  · rw [show _ = Sign.positive from h]
    dsimp only
    split
    · exact msb_packComponents _ _
    · split
      · exact msb_packComponents _ _
      · exact msb_packComponents _ _

theorem unsigned_pack {u : UnpackedFloat} (h : Positive u) :
    Unsigned (.ofModel (Float.Model.pack u)) := msb_pack h

theorem unpackSign_eq {b : BitVec 64} (h : b.msb = false) :
    Sign.ofBitVec (@unpackSign Format.binary64 b) = .positive := by
  have hsign : @unpackSign Format.binary64 b = 0#1 := by
    apply BitVec.eq_of_getLsbD_eq
    intro i hi
    obtain rfl : i = 0 := by omega
    rw [BitVec.msb_eq_getLsbD_last] at h
    unfold unpackSign
    rw [BitVec.getLsbD_cast, BitVec.getLsbD_extractLsb]
    exact h
  rw [hsign]
  rfl

theorem positive_dite {c : Prop} [Decidable c] {u : c → UnpackedFloat} {v : ¬c → UnpackedFloat}
    (hu : ∀ h, Positive (u h)) (hv : ∀ h, Positive (v h)) :
    Positive (if h : c then u h else v h) := by
  split
  · exact hu _
  · exact hv _

theorem positive_ite {c : Prop} [Decidable c] {u v : UnpackedFloat} (hu : Positive u)
    (hv : Positive v) : Positive (if c then u else v) :=
  positive_dite (fun _ => hu) fun _ => hv

theorem positive_unpack {b : BitVec 64} (h : b.msb = false) :
    Positive (UnpackedFloat.unpack Format.binary64 b) := by
  unfold UnpackedFloat.unpack
  dsimp only
  rw [unpackSign_eq h]
  refine positive_ite (positive_ite rfl trivial) (positive_ite ?_ rfl)
  exact positive_dite (fun _ => rfl) fun _ => rfl

theorem positive_round (mantissa : Nat) (exponent : Int) (accuracy : Accuracy) :
    Positive (roundWithAccuracy Format.binary64 .positive mantissa exponent accuracy) := by
  unfold roundWithAccuracy
  exact positive_dite (fun _ => rfl) fun _ => rfl

theorem positive_mul {u v : UnpackedFloat} (hu : Positive u) (hv : Positive v) :
    Positive (UnpackedFloat.mul Format.binary64 u v) := by
  unfold UnpackedFloat.mul
  split
  all_goals first
    | trivial
    | (rw [show _ = Sign.positive from hu, show _ = Sign.positive from hv]; rfl)
    | (rw [show _ = Sign.positive from hu, show _ = Sign.positive from hv];
       exact positive_round _ _ _)

theorem positive_div {u v : UnpackedFloat} (hu : Positive u) (hv : Positive v) :
    Positive (UnpackedFloat.div Format.binary64 u v) := by
  unfold UnpackedFloat.div
  split
  all_goals first
    | trivial
    | (rw [show _ = Sign.positive from hu, show _ = Sign.positive from hv]; rfl)
    | (rw [show _ = Sign.positive from hu, show _ = Sign.positive from hv];
       exact positive_round _ _ _)

theorem unsigned_mul {x y : Float} (hx : Unsigned x) (hy : Unsigned y) : Unsigned (x * y) :=
  unsigned_pack (positive_mul (positive_unpack hx) (positive_unpack hy))

theorem unsigned_div {x y : Float} (hx : Unsigned x) (hy : Unsigned y) : Unsigned (x / y) :=
  unsigned_pack (positive_div (positive_unpack hx) (positive_unpack hy))

theorem unsigned_ofNat (n : UInt64) : Unsigned n.toFloat := by
  refine unsigned_pack ?_
  show Positive (normalize Format.binary64 (n.toNat : Int) 0 .positive)
  unfold UnpackedFloat.normalize
  split
  · rename_i hlt
    have := Int.compare_eq_lt.1 hlt
    omega
  · rfl
  · exact positive_round _ _ _

theorem unsigned_powers :
    ∀ x ∈ Float.exactlyRepresentablePowersOfTen, Unsigned x := by
  unfold Unsigned
  decide +kernel

theorem positive_ofScientific (m : Nat) (e : Int) :
    Positive (UnpackedFloat.ofScientific Format.binary64 m e) := by
  unfold UnpackedFloat.ofScientific
  refine positive_dite (fun _ => rfl) fun _ => positive_ite rfl (positive_ite rfl ?_)
  exact positive_ite (positive_mul rfl rfl) (positive_div rfl rfl)

theorem unsigned_ofScientific (m : Nat) (s : Bool) (e : Nat) :
    Unsigned (Float.ofScientific m s e) := by
  unfold Float.ofScientific
  dsimp only
  split
  · have hpower := fun i h => unsigned_powers _ (Array.getElem_mem (i := i) h)
    split
    · exact unsigned_div (unsigned_ofNat _) (hpower _ _)
    · exact unsigned_mul (unsigned_ofNat _) (hpower _ _)
  · exact unsigned_pack (positive_ofScientific _ _)

/-! ## Decimals -/

theorem unsigned_nearest (digits : Nat) (exponent : Int) :
    Unsigned (Decimal.nearest digits exponent) := by
  have hzero : Unsigned 0 := unsigned_ofScientific 0 false 0
  have hone : Unsigned 1 := unsigned_ofScientific 1 false 0
  unfold Decimal.nearest
  dsimp only
  split
  · exact hzero
  · split
    · exact unsigned_div hone hzero
    · split
      · exact hzero
      · split
        · exact unsigned_ofScientific _ _ _
        · exact unsigned_ofScientific _ _ _

theorem unsigned_nearestTo (ds : List Char) (exponent : Int) :
    Unsigned (Decimal.nearestTo ds exponent) := by
  unfold Decimal.nearestTo
  dsimp only
  split
  · exact unsigned_nearest _ _
  · exact unsigned_nearest _ _

/-! ## Constants that are taken for one -/

theorem eq_of_toBits {x y : Float} (h : x.toBits = y.toBits) : x = y := by
  obtain ⟨⟨a, ha⟩⟩ := x
  obtain ⟨⟨b, hb⟩⟩ := y
  cases h
  rfl

theorem toBits_zero : (0 : Float).toBits = 0 := by decide +kernel

theorem eq_zero_of_unpack {b : BitVec 64} {sign : Sign} (h : b.msb = false)
    (hzero : UnpackedFloat.unpack Format.binary64 b = .zero sign) : b = 0 := by
  unfold UnpackedFloat.unpack at hzero
  dsimp only at hzero
  by_cases hfull : @unpackExponent Format.binary64 b = -1#_
  · rw [if_pos hfull] at hzero
    split at hzero <;> cases hzero
  rw [if_neg hfull] at hzero
  by_cases hexponent : @unpackExponent Format.binary64 b = 0#_
  · rw [if_pos hexponent] at hzero
    by_cases hmantissa : @unpackMantissa Format.binary64 b = 0#_
    · have hlow : b.toNat % 4503599627370496 = 0 := by
        simpa [unpackMantissa] using congrArg BitVec.toNat hmantissa
      have hhigh : b.toNat >>> 52 % 2048 = 0 := by
        simpa [unpackExponent] using congrArg BitVec.toNat hexponent
      have htop := BitVec.msb_eq_false_iff_two_mul_lt.1 h
      apply BitVec.eq_of_toNat_eq
      show b.toNat = 0
      omega
    · rw [dif_neg hmantissa] at hzero
      cases hzero
  · rw [if_neg hexponent] at hzero
    cases hzero

theorem toBits_of_beq_zero {x : Float} (hx : Unsigned x) (h : (x == 0) = true) : x.toBits = 0 := by
  have hzero : (0 : Float).toModel.unpack = .zero .positive := by
    show UnpackedFloat.unpack Format.binary64 (0 : Float).toBits.toBitVec = _
    rw [toBits_zero]
    rfl
  change UnpackedFloat.beq x.toModel.unpack (0 : Float).toModel.unpack = true at h
  rw [hzero] at h
  unfold UnpackedFloat.beq at h
  have hbits : ∀ sign, x.toModel.unpack = .zero sign → x.toBits = 0 := by
    intro sign hsign
    have := eq_zero_of_unpack hx hsign
    exact UInt64.toBitVec_inj.1 this
  cases hu : x.toModel.unpack with
  | zero sign => exact hbits sign hu
  | notANumber =>
    rw [hu] at h
    cases h
  | infinity sign =>
    rw [hu] at h
    cases sign <;> cases h
  | finite sign m e hm =>
    rw [hu] at h
    cases sign <;> cases h

/-- Numbers without a sign that have the same key are the same. -/
theorem ConstantKey.eq_of_ofValue? {x y : Float} (hx : Unsigned x) (hy : Unsigned y)
    {key : ConstantKey} (hkey : ofValue? (.float x) = some key)
    (hkey' : ofValue? (.float y) = some key) : x = y := by
  have hbits : ∀ {z : Float}, Unsigned z → ofValue? (.float z) = some key →
      key = .float z.toBits := by
    intro z hz hzkey
    unfold ofValue? at hzkey
    dsimp only at hzkey
    split at hzkey
    · cases hzkey
    · by_cases hzero : (z == 0) = true
      · rw [if_pos hzero] at hzkey
        cases hzkey
        rw [toBits_of_beq_zero hz hzero]
      · rw [if_neg hzero] at hzkey
        cases hzkey
        rfl
  have := (hbits hx hkey).symm.trans (hbits hy hkey')
  injection this with hsame
  exact eq_of_toBits hsame

end Ember
