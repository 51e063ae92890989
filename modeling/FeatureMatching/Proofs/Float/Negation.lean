import Mathlib
import FeatureMatching.Proofs.Float.Scaling

/-!
# Exact identities with signs

Most identities of arithmetic fail on floats by a rounding error, or on zeros by a sign. The few
below hold bit for bit. Rounding and storing look at a magnitude and copy the sign, so negation
commutes with both (`settle_neg`), and the sign of a factor is that of the product (`neg_mul32`).
Taking the magnitude is exact for the same reason (`value32_abs`). A finite number less itself is
the positive zero (`sub_self32`). Half of a double is the number again unless the double overflows
(`half_double_eq_iff`).
-/

set_option autoImplicit false

namespace FeatureMatching.Numeric

open Float.Model (Format UnpackedFloat)
open Float.Model.UnpackedFloat

/-! ## Negation -/

section Negation

variable {F : Format}

theorem fits_neg {u : UnpackedFloat} (h : Fits F u) : Fits F u.neg := by
  cases u with
  | notANumber | infinity s | zero s => trivial
  | finite s m e hm => exact h

theorem unpack_packComponents_neg (s : Sign) (e : BitVec F.exponentBits)
    (m : BitVec F.mantissaBitsWithoutImplicit) :
    unpack F (packComponents F (-s) e m) = (unpack F (packComponents F s e m)).neg := by
  simp only [unpack, unpackExponent_packComponents, unpackMantissa_packComponents,
    unpackSign_packComponents, ofBitVec_toBitVec]
  split_ifs <;> rfl

/-- Storing keeps the sign apart from the magnitude, also where it overflows. -/
theorem settle_neg (u : UnpackedFloat) : settle F u.neg = (settle F u).neg := by
  cases u with
  | notANumber | infinity s | zero s => simp [UnpackedFloat.neg]
  | finite s m e hm =>
    unfold settle
    simp only [UnpackedFloat.neg, pack]
    split_ifs
    · exact (settle_infinity (-s)).trans (congrArg UnpackedFloat.neg (settle_infinity s).symm)
    · exact unpack_packComponents_neg _ _ _
    · exact unpack_packComponents_neg _ _ _

theorem mul_neg_left (u v : UnpackedFloat) : mul F u.neg v = (mul F u v).neg := by
  have hsign (s s' : Sign) : -s * s' = -(s * s') := by cases s <;> cases s' <;> rfl
  cases u with
  | notANumber => cases v <;> rfl
  | infinity s | zero s =>
    cases v with
    | notANumber => rfl
    | infinity s' | zero s' | finite s' n e hn => simp only [mul, UnpackedFloat.neg, hsign]
  | finite s m d hm =>
    cases v with
    | notANumber => rfl
    | infinity s' | zero s' => simp only [mul, UnpackedFloat.neg, hsign]
    | finite s' n e hn =>
      simp only [mul, UnpackedFloat.neg, hsign, roundWithAccuracy]
      split <;> rfl

end Negation

theorem unpack32_neg (x : Float32) : unpack32 (-x) = (unpack32 x).neg :=
  settle_of_fits (by decide) (fits_neg (fits_unpack32 x))

theorem neg_neg32 (x : Float32) : - -x = x := by
  refine unpack32_injective ?_
  rw [unpack32_neg, unpack32_neg]
  cases unpack32 x with
  | notANumber => rfl
  | infinity s | zero s | finite s m e hm => cases s <;> rfl

/-- **The sign of a factor is the sign of the product.** -/
theorem neg_mul32 (x y : Float32) : -x * y = -(x * y) := by
  refine unpack32_injective ?_
  rw [unpack32_neg, unpack32_mul, unpack32_neg, mul_neg_left, settle_neg, unpack32_mul]

/-! ## Magnitudes -/

section Magnitude

theorem fits_abs {F : Format} {u : UnpackedFloat} (h : Fits F u) : Fits F u.abs := by
  cases u with
  | notANumber | infinity s | zero s => trivial
  | finite s m e hm => exact h

theorem unpack32_abs_eq (x : Float32) : unpack32 x.abs = (unpack32 x).abs :=
  settle_of_fits (by decide) (fits_abs (fits_unpack32 x))

theorem isFinite_abs32 (x : Float32) : x.abs.isFinite = x.isFinite := by
  show (unpack32 x.abs).isFinite = (unpack32 x).isFinite
  rw [unpack32_abs_eq]
  cases unpack32 x <;> rfl

theorem value32_abs (x : Float32) : value32 x.abs = |value32 x| := by
  rw [value32, unpack32_abs_eq, value32]
  cases unpack32 x with
  | notANumber | infinity s | zero s => simp [UnpackedFloat.abs, value]
  | finite s m e hm =>
    rw [abs_value_finite]
    simp [UnpackedFloat.abs, value, Sign.apply]

end Magnitude

/-! ## Differences and doubles -/

section Exact

variable {x : Float32}

/-- **A finite number less itself is the positive zero**, also a negative zero less itself. -/
theorem sub_self32 (hx : x.isFinite = true) : x - x = 0 := by
  have hfinite : (unpack32 x).isFinite = true := hx
  have hdifference : sub .binary32 (unpack32 x) (unpack32 x) = .zero .positive := by
    cases hu : unpack32 x with
    | notANumber | infinity s => rw [hu] at hfinite; cases hfinite
    | zero s => cases s <;> rfl
    | finite s m e hm => simp [sub, UnpackedFloat.normalize]
  refine unpack32_injective ?_
  show settle .binary32 (sub .binary32 (unpack32 x) (unpack32 x)) = unpack32 0
  rw [hdifference, settle_zero]
  rfl

/-- A double is exact unless it overflows: only the exponent moves. -/
theorem value32_double (h : (x + x).isFinite = true) : value32 (x + x) = 2 * value32 x := by
  have hresolved : Resolved .binary32 (value32 x) := .inr (isMultiple_value (fits_unpack32 x))
  have hscale := roundValue_scale_nat hresolved 1
  rw [pow_one, roundValue_value32 (isFinite_of_add32 h).1] at hscale
  rw [value32_add h, ← two_mul, hscale]

theorem unpack32_half : unpack32 0.5 = .finite .positive 8388608 (-24) (by decide) := rfl

theorem value32_half : value32 0.5 = 1 / 2 := by
  rw [value32, unpack32_half]
  norm_num [value, Sign.apply]

/-- **Half of a double is the number again, bit for bit, unless the double overflows.** -/
theorem half_double_eq_iff (x : Float32) :
    0.5 * (x + x) = x ↔ (x.isFinite = true → (x + x).isFinite = true) := by
  constructor
  · intro h hx
    exact (isFinite_of_mul32 (h.symm ▸ hx)).2
  · intro h
    have hproduct : unpack32 (0.5 * (x + x)) = settle .binary32 (mul .binary32 (unpack32 0.5)
        (settle .binary32 (add .binary32 (unpack32 x) (unpack32 x)))) := rfl
    have hpositive (s : Sign) : Sign.positive * s = s := by cases s <;> rfl
    refine unpack32_injective ?_
    cases hu : unpack32 x with
    | notANumber => simp [hproduct, hu, add, mul, unpack32_half]
    | infinity s | zero s => cases s <;> simp [hproduct, hu, add, mul, unpack32_half, hpositive]
    | finite s m e hm =>
      have hx : x.isFinite = true := by
        show (unpack32 x).isFinite = true
        rw [hu]
        rfl
      obtain ⟨hnan, hposition⟩ := position32_mul (x := 0.5) rfl (h hx)
      rw [value32_half, value32_double (h hx), one_div, inv_mul_cancel_left₀ two_ne_zero,
        roundPosition_value32 hx] at hposition
      rw [← hu]
      refine eq_of_position_eq (fits_unpack32 _) (fits_unpack32 x) hnan (isNaN_of_isFinite hx) ?_
        hposition
      rw [hu]
      exact position_ne_zero hm

end Exact

end FeatureMatching.Numeric
