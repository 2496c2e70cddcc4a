import FuzzyInference.Proofs.Fallback

/-! Positive numbers. In binary64 a sum of two of them is rounded and may overflow, but neither it nor
a product with one becomes zero or no number at all. -/

namespace FuzzyInference

/-! ## Unpacked numbers -/

namespace Binary64

open Float.Model Float.Model.UnpackedFloat

def IsAbove : UnpackedFloat → Prop
  | .infinity .positive | .finite .positive .. => True
  | _ => False

/-- No more digits than there is room for, and none below the last place. -/
def Fits : UnpackedFloat → Prop
  | .finite _ m e _ => m < 2 ^ 53 ∧ -1074 ≤ e
  | _ => True

theorem mantissa_shiftRight (em : ExtendedMantissa) (n : Nat) :
    (em >>> n).mantissa = em.mantissa / 2 ^ n := by
  induction n with
  | zero => exact (Nat.div_one _).symm
  | succ n ih =>
      have hstep : (em >>> (n + 1)).mantissa = (em >>> n).mantissa / 2 := rfl
      rw [hstep, ih, Nat.div_div_eq_div_mul, pow_succ]

theorem mantissa_ofMantissaAndAccuracy (m : Nat) (accuracy : Accuracy) :
    (ExtendedMantissa.ofMantissaAndAccuracy m accuracy).mantissa = m := by
  rcases accuracy with - | (- | - | -) <;> rfl

theorem mantissa_le_roundedMantissa (em : ExtendedMantissa) :
    em.mantissa ≤ em.roundedMantissa := by
  obtain ⟨m, round, sticky⟩ := em
  cases round <;> cases sticky <;>
    simp [ExtendedMantissa.roundedMantissa, ExtendedMantissa.accuracy, Accuracy.roundToNearestEven]

theorem targetExponent_binary64 (t : Int) :
    Format.binary64.targetExponent t = max (t - 53) (-1074) := by
  rw [Format.targetExponent]
  rfl

theorem two_pow_le {m : Nat} {e : Int} (hm : 0 < m) (he : -1074 ≤ e) :
    2 ^ (-1074 - e).toNat ≤ m := by
  rwa [Int.toNat_of_nonpos (by omega), pow_zero]

/-- Dropping digits leaves some, unless all of them are below the last place. -/
theorem shiftToTargetExponent_bounds {m : Nat} {e : Int} (accuracy : Accuracy) (hm : 0 < m)
    (hplace : 2 ^ (-1074 - e).toNat ≤ m) :
    let shifted := shiftToTargetExponent .binary64 m e accuracy
    0 < shifted.1.mantissa ∧ shifted.1.mantissa < 2 ^ 53 ∧ -1074 ≤ shifted.2 := by
  obtain ⟨k, hk⟩ : ∃ k, k = (Format.binary64.targetExponent (totalExponent m e) - e).toNat :=
    ⟨_, rfl⟩
  have hcases : k = max (m.log2 - 52) (-1074 - e).toNat := by
    rw [hk, targetExponent_binary64, totalExponent]
    omega
  have hshifted : shiftToTargetExponent .binary64 m e accuracy =
      (ExtendedMantissa.ofMantissaAndAccuracy m accuracy >>> k, e + k) := by
    rw [hk]
    rfl
  intro shifted
  simp only [shifted, hshifted, mantissa_shiftRight, mantissa_ofMantissaAndAccuracy]
  refine ⟨Nat.div_pos ?_ (Nat.two_pow_pos k), ?_, by omega⟩
  · have hdigits : 2 ^ (m.log2 - 52) ≤ m :=
      (Nat.pow_le_pow_right Nat.two_pos (Nat.sub_le ..)).trans (Nat.log2_self_le hm.ne')
    rcases le_total (m.log2 - 52) (-1074 - e).toNat with h | h
    · rwa [hcases, max_eq_right h]
    · rwa [hcases, max_eq_left h]
  · rw [Nat.div_lt_iff_lt_mul (Nat.two_pow_pos k), ← pow_add]
    exact Nat.lt_log2_self.trans_le (Nat.pow_le_pow_right Nat.two_pos (by omega))

theorem roundWithAccuracy_positive {m : Nat} {e : Int} (accuracy : Accuracy) (hm : 0 < m)
    (hplace : 2 ^ (-1074 - e).toNat ≤ m) :
    let rounded := roundWithAccuracy .binary64 .positive m e accuracy
    IsAbove rounded ∧ Fits rounded := by
  obtain ⟨hfirst, -, hplace⟩ := shiftToTargetExponent_bounds accuracy hm hplace
  -- Rounding up may add a digit, so digits are dropped once more.
  have hrounded := hfirst.trans_le
    (mantissa_le_roundedMantissa (shiftToTargetExponent .binary64 m e accuracy).1)
  obtain ⟨hsecond, hdigits, hplace⟩ := shiftToTargetExponent_bounds .exact hrounded
    (two_pow_le hrounded hplace)
  unfold roundWithAccuracy
  dsimp only
  rw [dif_neg hsecond.ne']
  exact ⟨trivial, hdigits, hplace⟩

theorem round_positive {m : Nat} {e : Int} (hm : 0 < m) (he : -1074 ≤ e) :
    let rounded := UnpackedFloat.round .binary64 .positive m e
    IsAbove rounded ∧ Fits rounded := by
  unfold UnpackedFloat.round decreaseExponent
  have hshifted (k : Nat) : 0 < m <<< k := Nat.shiftLeft_pos_iff.mpr hm
  refine roundWithAccuracy_positive .exact (hshifted _) (two_pow_le (hshifted _) ?_)
  rw [targetExponent_binary64]
  omega

theorem add_positive {x y : UnpackedFloat} (hx : IsAbove x) (hfitsx : Fits x) (hy : IsAbove y)
    (hfitsy : Fits y) :
    let sum := UnpackedFloat.add .binary64 x y
    IsAbove sum ∧ Fits sum := by
  match x, y with
  | .infinity .positive, .infinity .positive => exact ⟨trivial, trivial⟩
  | .infinity .positive, .finite .positive .. => exact ⟨trivial, trivial⟩
  | .finite .positive .., .infinity .positive => exact ⟨trivial, trivial⟩
  | .finite .positive m e hm, .finite .positive n f hn =>
      -- The sum of the mantissas at the lesser exponent, before it is rounded.
      obtain ⟨a, ha, hpos⟩ :
          ∃ a, a = m <<< (e - min e f).toNat + n <<< (f - min e f).toNat ∧ 0 < a :=
        ⟨_, rfl, Nat.add_pos_left (Nat.shiftLeft_pos_iff.mpr hm) _⟩
      have hsum :
          UnpackedFloat.add .binary64 (.finite .positive m e hm) (.finite .positive n f hn) =
            UnpackedFloat.normalize .binary64 a (min e f) .positive := by
        rw [ha]
        rfl
      have hcompare : compare (a : Int) 0 = .gt := by
        rw [Int.compare_eq_gt]
        exact Int.natCast_pos.mpr hpos
      rw [hsum, UnpackedFloat.normalize, hcompare]
      exact round_positive hpos (le_min hfitsx.2 hfitsy.2)

theorem unpack_zero : (0 : Float).toModel.unpack = .zero .positive := rfl

theorem unpack_one :
    (1 : Float).toModel.unpack = .finite .positive (2 ^ 52) (-52) (by decide) := rfl

theorem zero_add_positive {x : UnpackedFloat} (hx : IsAbove x) :
    UnpackedFloat.add .binary64 (0 : Float).toModel.unpack x = x := by
  rw [unpack_zero]
  match x with
  | .infinity .positive | .finite .positive .. => rfl

theorem mul_one_positive {x : UnpackedFloat} (hx : IsAbove x) (hfits : Fits x) :
    let product := UnpackedFloat.mul .binary64 x (1 : Float).toModel.unpack
    IsAbove product ∧ Fits product := by
  rw [unpack_one]
  match x with
  | .infinity .positive => exact ⟨trivial, trivial⟩
  | .finite .positive m e hm =>
      have hplace : 2 ^ (-1074 - (e + -52)).toNat ≤ m * 2 ^ 52 :=
        calc 2 ^ (-1074 - (e + -52)).toNat
          _ ≤ 2 ^ 52 := Nat.pow_le_pow_right Nat.two_pos (by have := hfits.2; omega)
          _ ≤ m * 2 ^ 52 := Nat.le_mul_of_pos_left _ hm
      exact roundWithAccuracy_positive .exact (Nat.mul_pos hm (by decide)) hplace

/-! ## Packed numbers -/

/-- The sign stands before the exponent and the mantissa. -/
theorem unpackSign_positive (e : BitVec 11) (m : BitVec 52) :
    unpackSign (packComponents .binary64 .positive e m) = 0#1 := by
  refine BitVec.eq_of_getLsbD_eq fun i hi => ?_
  obtain rfl : i = 0 := by omega
  change (BitVec.extractLsb 63 63 (Sign.positive.toBitVec ++ e ++ m)).getLsbD 0 = false
  rw [BitVec.getLsbD_extractLsb, BitVec.getLsbD_append, BitVec.getLsbD_append]
  rfl

theorem isAbove_unpack {b : BitVec 64} (hsign : @unpackSign .binary64 b = 0#1)
    (h : @unpackExponent .binary64 b = -1#11 ∧ @unpackMantissa .binary64 b = 0#52 ∨
      @unpackExponent .binary64 b ≠ -1#11 ∧
        (@unpackExponent .binary64 b ≠ 0#11 ∨ @unpackMantissa .binary64 b ≠ 0#52)) :
    IsAbove (UnpackedFloat.unpack .binary64 b) := by
  unfold UnpackedFloat.unpack
  dsimp only
  rw [hsign]
  rcases h with ⟨hspecial, hzero⟩ | ⟨hspecial, hzero⟩
  · rw [if_pos hspecial, if_pos hzero]
    exact trivial
  · rw [if_neg hspecial]
    by_cases he : @unpackExponent .binary64 b = 0#11
    · rw [if_pos he, dif_neg (hzero.resolve_left (not_not_intro he))]
      exact trivial
    · rw [if_neg he]
      exact trivial

theorem isAbove_unpack_components {e : BitVec 11} {m : BitVec 52}
    (h : e = -1#11 ∧ m = 0#52 ∨ e ≠ -1#11 ∧ (e ≠ 0#11 ∨ m ≠ 0#52)) :
    IsAbove (UnpackedFloat.unpack .binary64 (packComponents .binary64 .positive e m)) := by
  refine isAbove_unpack (unpackSign_positive e m) ?_
  rwa [unpackMantissa_packComponents, unpackExponent_packComponents]

/-- Neither all ones nor all zeros, the fields of the infinite and of the subnormal numbers. -/
theorem ofNat_ne_ones_and_ne_zero {k : Nat} (hpos : 0 < k) (hbound : k + 1 < 2 ^ 11) :
    BitVec.ofNat 11 k ≠ -1#11 ∧ BitVec.ofNat 11 k ≠ 0#11 := by
  constructor <;> bv_omega

theorem isAbove_unpack_pack {x : UnpackedFloat} (hx : IsAbove x) (hfits : Fits x) :
    IsAbove (Float.Model.pack x).unpack := by
  change IsAbove (UnpackedFloat.unpack .binary64 (UnpackedFloat.pack .binary64 x))
  match x with
  | .infinity .positive => exact isAbove_unpack_components (.inl ⟨rfl, rfl⟩)
  | .finite .positive m e hm =>
      obtain ⟨hdigits, hplace⟩ := hfits
      unfold UnpackedFloat.pack
      dsimp only
      split
      · exact isAbove_unpack_components (.inl ⟨rfl, rfl⟩)
      · rename_i hexponent
        simp only [Format.exponentBias] at hexponent
        split
        -- A normal number has an exponent field within bounds, a subnormal one has a mantissa.
        · have hnormal :=
            ofNat_ne_ones_and_ne_zero (k := (e + 1023 + 52).toNat) (by omega) (by omega)
          exact isAbove_unpack_components (.inr ⟨hnormal.1, .inl hnormal.2⟩)
        · rename_i hlog
          refine isAbove_unpack_components (.inr ⟨by decide, .inr ?_⟩)
          have hlog2 := (Nat.log2_lt hm.ne').mpr hdigits
          have hm52 : m < 2 ^ 52 := (Nat.log2_lt hm.ne').mp (by
            change ¬m.log2 + 1 = 53 at hlog
            omega)
          intro hzero
          have hmod := congrArg BitVec.toNat hzero
          rw [BitVec.toNat_ofNat, Nat.mod_eq_of_lt hm52] at hmod
          exact hm.ne' hmod

theorem fits_unpack (b : BitVec 64) : Fits (UnpackedFloat.unpack .binary64 b) := by
  unfold UnpackedFloat.unpack
  dsimp only
  by_cases hspecial : @unpackExponent .binary64 b = -1#11
  · rw [if_pos hspecial]
    split <;> exact trivial
  · rw [if_neg hspecial]
    by_cases he : @unpackExponent .binary64 b = 0#11
    · rw [if_pos he]
      by_cases hzero : @unpackMantissa .binary64 b = 0#52
      · rw [dif_pos hzero]
        exact trivial
      · rw [dif_neg hzero]
        have hm := (@unpackMantissa .binary64 b).isLt
        exact ⟨hm.trans (by decide), by simp only [Format.exponentBias]; omega⟩
    · rw [if_neg he]
      have hpos : 0 < (@unpackExponent .binary64 b).toNat :=
        Nat.pos_of_ne_zero fun h => he (BitVec.eq_of_toNat_eq h)
      refine ⟨(1#1 ++ @unpackMantissa .binary64 b).isLt, ?_⟩
      simp only [Format.exponentBias]
      omega

theorem isAbove_iff {x : Float} : IsAbove x.toModel.unpack ↔ 0 < x := by
  have hlt : 0 < x ↔ UnpackedFloat.lt (0 : Float).toModel.unpack x.toModel.unpack = true :=
    decide_eq_true_iff
  rw [hlt, unpack_zero]
  cases x.toModel.unpack with
  | infinity sign | finite sign =>
      cases sign with
      | negative => exact ⟨nofun, nofun⟩
      | positive => exact ⟨fun _ => rfl, fun _ => trivial⟩
  | notANumber | zero => exact ⟨nofun, nofun⟩

/-- What is computed from unpacked numbers is packed again. -/
theorem zero_lt_ofModel_pack {u : UnpackedFloat} (h : IsAbove u ∧ Fits u) :
    0 < Float.ofModel (Float.Model.pack u) := isAbove_iff.mp (isAbove_unpack_pack h.1 h.2)

end Binary64

/-! ## Scalars -/

/-- A scalar whose positive numbers stay positive when they are added, or taken with one. -/
class Scalar.Positivity (α : Type) [Scalar α] : Prop extends Scalar.Grounded α where
  zero_add_pos {x : α} : 0 < x → 0 < 0 + x
  add_pos {x y : α} : 0 < x → 0 < y → 0 < x + y
  mul_one_pos {x : α} : 0 < x → 0 < x * 1
  least_one_pos {x : α} : 0 < x → 0 < least x 1

open Binary64 in
instance : Scalar.Positivity Float where
  zero_add_pos {x} hx := by
    have habove := isAbove_iff.mpr hx
    exact zero_lt_ofModel_pack ((zero_add_positive habove).symm ▸ ⟨habove, fits_unpack _⟩)
  add_pos hx hy := zero_lt_ofModel_pack
    (add_positive (isAbove_iff.mpr hx) (fits_unpack _) (isAbove_iff.mpr hy) (fits_unpack _))
  mul_one_pos hx := zero_lt_ofModel_pack (mul_one_positive (isAbove_iff.mpr hx) (fits_unpack _))
  least_one_pos {x} hx := by
    have hone : (0 : Float) < 1 := by decide +kernel
    unfold Scalar.least
    dsimp only [instScalarFloat]
    split
    · exact hone
    · split
      · exact hone
      · exact hx

instance : Scalar.Positivity Rat where
  zero_add_pos hx := by rwa [Rat.zero_add]
  add_pos := add_pos
  mul_one_pos hx := by rwa [Rat.mul_one]
  least_one_pos hx := lt_min hx one_pos

end FuzzyInference
