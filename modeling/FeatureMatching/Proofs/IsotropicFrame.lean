import Mathlib
import FeatureMatching.Keypoint
import FeatureMatching.Proofs.Float.Error
import FeatureMatching.Proofs.Float.Negation

/-!
# The frame of a rotation is isotropic

A keypoint made from a scale and an orientation has the frame `[[c, -s], [s, c]]` with the rounded
products `c = scale * cos` and `s = scale * sin`. Its two axes are equally long and a quarter turn
apart, bit for bit and for every scale, because what is computed of the second axis is computed of
the same two numbers as what is computed of the first: the sign of the scale is the sign of the
product (`neg_mul32`), a length does not see the order or the signs of its components
(`hypot32_comm`, `hypot32_neg`), and the two directions whose difference is the skew are one
direction, which is finite (`isFinite_arctan32`).

Nothing else is needed of the functions, not even that the sine and the cosine belong together. So
the statement is about any four functions with these laws (`Trigonometry.Lawful`), and those of the
library are an instance.
-/

set_option autoImplicit false

namespace FeatureMatching

open Numeric

namespace Numeric

open Float.Model (Format)
open Float.Model.UnpackedFloat

/-! ## The length of a vector -/

theorem hypot32_comm (x y : Float32) : hypot32 x y = hypot32 y x := by
  unfold hypot32
  cases unpack32 x <;> cases unpack32 y <;> simp [isInfinite, square?, Nat.add_comm]

theorem hypot32_neg (x y : Float32) : hypot32 (-x) y = hypot32 x y := by
  unfold hypot32
  rw [unpack32_neg]
  cases unpack32 x <;> rfl

/-! ## The direction of a vector -/

/-- A bit pattern is finite if what is left without the sign bit is below infinity. -/
theorem isFinite_ofBits {b : UInt32} (h : b.toNat % 0x80000000 < topRank .binary32) :
    (Float32.ofBits b).isFinite = true := by
  have hstored : unpack32 (Float32.ofBits b) = unpack .binary32 b.toBitVec :=
    settle_of_fits (by decide) (fits_unpack _)
  have htop : topRank .binary32 = 0x7f800000 := rfl
  have hfull : 2 ^ Format.binary32.exponentBits = 0x100 := rfl
  have hfield : (@unpackExponent .binary32 b.toBitVec).toNat = b.toNat / 0x800000 % 0x100 :=
    toNat_unpackExponent _
  have hreads := reads_unpack (F := .binary32) b.toBitVec
  show (unpack32 (Float32.ofBits b)).isFinite = true
  rw [hstored]
  generalize unpack .binary32 b.toBitVec = u at hreads ⊢
  cases hreads with
  | notANumber full | infinity full => omega
  | zero empty => rfl
  | finite hm below canonical rank_eq => rfl

theorem isFinite_signed (s : Sign) {bits : Nat} (h : bits ≤ AngleGrid.halfTurn) :
    (signed s bits).isFinite = true := by
  have hhalf : AngleGrid.halfTurn = 0x40490fdb := rfl
  have htop : topRank .binary32 = 0x7f800000 := rfl
  have hpattern {n : Nat} (hn : n < 0x100000000) : (UInt32.ofNat n).toNat = n :=
    UInt32.toNat_ofNat_of_lt' hn
  cases s with
  | positive =>
    refine isFinite_ofBits ?_
    rw [hpattern (by omega)]
    omega
  | negative =>
    refine isFinite_ofBits ?_
    rw [hpattern (by omega)]
    omega

/-- **Every direction has a finite angle**, those of infinite and of vanishing vectors included. -/
theorem isFinite_arctan32 {y x : Float32} (hy : y.isNaN = false) (hx : x.isNaN = false) :
    (arctan32 y x).isFinite = true := by
  have hny : (unpack32 y).isNaN = false := hy
  have hnx : (unpack32 x).isNaN = false := hx
  have hdirection (s : Sign) (run : Int) (rise : Nat) :
      (signed s (directionBits run rise)).isFinite = true :=
    isFinite_signed s (AngleGrid.nearest_le_halfTurn _)
  unfold arctan32
  cases hv : unpack32 y with
  | notANumber => rw [hv] at hny; cases hny
  | infinity s | zero s | finite s m e hm =>
    cases hu : unpack32 x with
    | notANumber => rw [hu] at hnx; cases hnx
    | infinity s' | zero s' | finite s' n d hn => exact hdirection _ _ _

end Numeric

/-! ## Frames made with any functions -/

namespace Trigonometry

/-- What is asked of the functions. The sine and the cosine may be anything. -/
class Lawful [Trigonometry] : Prop where
  isFinite_arctan : ∀ y x : Float32, y.isNaN = false → x.isNaN = false →
    (arctan y x).isFinite = true
  hypotenuse_comm : ∀ x y : Float32, hypotenuse x y = hypotenuse y x
  hypotenuse_neg : ∀ x y : Float32, hypotenuse (-x) y = hypotenuse x y

instance standard_lawful : Lawful where
  isFinite_arctan := fun _ _ => isFinite_arctan32
  hypotenuse_comm := hypot32_comm
  hypotenuse_neg := hypot32_neg

end Trigonometry

namespace Keypoint

open Trigonometry

section Frame

variable [Trigonometry]

/-- A frame whose axes are equally long and a quarter turn apart. The mean of the two lengths is the
length of each, unless their sum is too large for the format. -/
structure Isotropic (k : Keypoint) : Prop where
  scaleX_eq : k.scaleX = k.scaleY
  a12_eq : -k.a12 = k.a21
  a22_eq : k.a22 = k.a11
  shear_eq : k.shear = 0
  scale_eq_iff : k.scale = k.scaleX ↔
    (k.scaleX.isFinite = true → (k.scaleX + k.scaleY).isFinite = true)

variable {x y scale orientation : Float32}

/-- The second axis of a rotation, a quarter turn ahead of the first. -/
theorem neg_a12_ofScaleOrientation :
    -(ofScaleOrientation x y scale orientation).a12 =
      (ofScaleOrientation x y scale orientation).a21 := by
  show -(-scale * sine orientation) = scale * sine orientation
  rw [neg_mul32, neg_neg32]

variable [Lawful]

theorem scaleX_ofScaleOrientation :
    (ofScaleOrientation x y scale orientation).scaleX =
      (ofScaleOrientation x y scale orientation).scaleY := by
  show hypotenuse (scale * cosine orientation) (scale * sine orientation) =
    hypotenuse (-scale * sine orientation) (scale * cosine orientation)
  rw [neg_mul32, Lawful.hypotenuse_neg, Lawful.hypotenuse_comm]

/-- The two directions are one direction, so their difference vanishes if it is finite. -/
theorem shear_ofScaleOrientation (hcosine : (scale * cosine orientation).isNaN = false)
    (hsine : (scale * sine orientation).isNaN = false) :
    (ofScaleOrientation x y scale orientation).shear = 0 := by
  unfold shear
  rw [neg_a12_ofScaleOrientation]
  exact sub_self32 (Lawful.isFinite_arctan _ _ hsine hcosine)

theorem isotropic_ofScaleOrientation (hcosine : (scale * cosine orientation).isNaN = false)
    (hsine : (scale * sine orientation).isNaN = false) :
    (ofScaleOrientation x y scale orientation).Isotropic where
  scaleX_eq := scaleX_ofScaleOrientation
  a12_eq := neg_a12_ofScaleOrientation
  a22_eq := rfl
  shear_eq := shear_ofScaleOrientation hcosine hsine
  scale_eq_iff := by
    unfold Keypoint.scale
    rw [← scaleX_ofScaleOrientation]
    exact half_double_eq_iff _

end Frame

end Keypoint

/-- **The frame made from a scale and an orientation is isotropic, bit for bit.** For any functions
with the laws, and so for those of the library, whatever the scale is: as long as its products with
the sine and the cosine are not NaN, the first axis consists of these products, the two axes are
equally long, the second is the first turned by a quarter, the skew is the positive zero, and the
mean scale is the length of the axes unless twice that length overflows. -/
theorem rotation_frame_isotropic :
    (∀ [Trigonometry] [Trigonometry.Lawful] (x y scale orientation : Float32),
      (scale * Trigonometry.cosine orientation).isNaN = false →
      (scale * Trigonometry.sine orientation).isNaN = false →
      let k := Keypoint.ofScaleOrientation x y scale orientation
      k.a11 = scale * Trigonometry.cosine orientation ∧
        k.a21 = scale * Trigonometry.sine orientation ∧ k.Isotropic) ∧
    ∀ x y scale orientation : Float32,
      (scale * cos32 orientation).isNaN = false → (scale * sin32 orientation).isNaN = false →
      let k := Keypoint.ofScaleOrientation x y scale orientation
      k.a11 = scale * cos32 orientation ∧ k.a21 = scale * sin32 orientation ∧
        k.scaleX = k.scaleY ∧ -k.a12 = k.a21 ∧ k.a22 = k.a11 ∧ k.shear = 0 ∧
        (k.scale = k.scaleX ↔
          (k.scaleX.isFinite = true → (k.scaleX + k.scaleY).isFinite = true)) := by
  refine ⟨fun x y scale orientation hcosine hsine =>
    ⟨rfl, rfl, Keypoint.isotropic_ofScaleOrientation hcosine hsine⟩, ?_⟩
  intro x y scale orientation hcosine hsine
  have h : (Keypoint.ofScaleOrientation x y scale orientation).Isotropic :=
    Keypoint.isotropic_ofScaleOrientation hcosine hsine
  exact ⟨rfl, rfl, h.scaleX_eq, h.a12_eq, h.a22_eq, h.shear_eq, h.scale_eq_iff⟩

/-- A scale of 3.5, turned by 0.75 radians; a negative infinite one; and the largest finite one,
whose axes add up to infinity. -/
theorem rotation_frame_isotropic_scales :
    (Keypoint.ofScaleOrientation 1 2 3.5 0.75).Isotropic ∧
    (Keypoint.ofScaleOrientation 1 2 3.5 0.75).a11.toBits = 0x4023e5f7 ∧
    (Keypoint.ofScaleOrientation 1 2 3.5 0.75).a21.toBits = 0x4018afe5 ∧
    (Keypoint.ofScaleOrientation 1 2 3.5 0.75).shear = 0 ∧
    (Keypoint.ofScaleOrientation 1 2 3.5 0.75).scale =
      (Keypoint.ofScaleOrientation 1 2 3.5 0.75).scaleX ∧
    (Keypoint.ofScaleOrientation 1 2 (-infinity32) 0.75).shear = 0 ∧
    (Keypoint.ofScaleOrientation 1 2 (-infinity32) 0.75).scale = infinity32 ∧
    (Keypoint.ofScaleOrientation 1 2 largest32 0).scaleX = largest32 ∧
    (Keypoint.ofScaleOrientation 1 2 largest32 0).scaleX =
      (Keypoint.ofScaleOrientation 1 2 largest32 0).scaleY ∧
    (Keypoint.ofScaleOrientation 1 2 largest32 0).scale ≠ largest32 := by
  obtain ⟨hany, hstandard⟩ := rotation_frame_isotropic
  obtain ⟨ha11, ha21, -, -, -, hshear, hscale⟩ :=
    hstandard 1 2 3.5 0.75 (by decide +kernel) (by decide +kernel)
  obtain ⟨-, -, -, -, -, hshear', hscale'⟩ :=
    hstandard 1 2 (-infinity32) 0.75 (by decide +kernel) (by decide +kernel)
  obtain ⟨-, -, hlength, -, -, -, hscale''⟩ :=
    hstandard 1 2 largest32 0 (by decide +kernel) (by decide +kernel)
  have hisotropic := (hany 1 2 3.5 0.75 (by decide +kernel) (by decide +kernel)).2.2
  have hlargest : (Keypoint.ofScaleOrientation 1 2 largest32 0).scaleX = largest32 := by
    decide +kernel
  refine ⟨hisotropic, ?_, ?_, hshear, hscale.mpr fun _ => by decide +kernel, hshear', ?_, hlargest,
    hlength, fun h => ?_⟩
  · rw [ha11]
    decide +kernel
  · rw [ha21]
    decide +kernel
  · exact (hscale'.mpr fun h => absurd h (by decide +kernel)).trans (by decide +kernel)
  · have hdouble := hscale''.mp (h.trans hlargest.symm) (by decide +kernel)
    exact absurd hdouble (by decide +kernel)

end FeatureMatching
