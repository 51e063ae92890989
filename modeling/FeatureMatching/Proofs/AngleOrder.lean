import Mathlib
import FeatureMatching.Similarity.Nearest
import FeatureMatching.Proofs.ArcCosine

/-!
# A higher similarity never has a larger angle

An angle comes out of four steps: a conversion, a quotient, a clamp and an arc cosine. The first
three are monotone on the positions of their operands, and the clamp keeps the cosine inside
`[-1, 1]` (`cosineOf_mono`, `neg_one_le_cosineOf`, `cosineOf_le_one`). So with any lawful arc cosine
the angle is a finite number that is not negative and falls as the similarity grows
(`isFinite_angle`, `position32_angle_nonneg`, `position32_angle_antitone`).

The ratio test multiplies such an angle by the ratio and compares the product. It passes more easily
when the runner-up is further away (`ratio_mul_angle_le_of_le`), whatever the ratio is, NaN and
infinity included, with one exception: a ratio of `-∞`, whose product with an angle of zero is NaN
and with any other `-∞`.
-/

set_option autoImplicit false

namespace FeatureMatching

open Numeric
open Float.Model (Format UnpackedFloat)
open Float.Model.UnpackedFloat

/-! ## The cosine -/

theorem value32_fullSimilarity : value32 fullSimilarity = 2 ^ 18 := by
  have hfull : unpack32 fullSimilarity = .finite .positive 8388608 (-5) (by decide) := rfl
  rw [value32, hfull]
  norm_num [value, Sign.apply]

theorem position32_clampUnit {q : Float32} (hq : q.isNaN = false) :
    (clampUnit q).isNaN = false ∧
      position32 (clampUnit q) = max (-0x3f800000) (min 0x3f800000 (position32 q)) := by
  have hone : (1 : Float32).isNaN = false := rfl
  have hneg : (-1 : Float32).isNaN = false := rfl
  have hlow : q < -1 ↔ position32 q < -0x3f800000 := by
    rw [lt_iff_position32, position32_neg_one]
    exact and_iff_right ⟨hq, hneg⟩
  have hhigh : 1 < q ↔ 0x3f800000 < position32 q := by
    rw [lt_iff_position32, position32_one]
    exact and_iff_right ⟨hone, hq⟩
  unfold clampUnit
  split
  · rename_i h
    rw [hlow] at h
    exact ⟨hneg, by rw [position32_neg_one]; omega⟩
  · rename_i hnlow
    split
    · rename_i h
      rw [hhigh] at h
      exact ⟨hone, by rw [position32_one]; omega⟩
    · rename_i hnhigh
      rw [hlow] at hnlow
      rw [hhigh] at hnhigh
      exact ⟨hq, by omega⟩

/-- The numbers that a word holds are far below the largest finite value. -/
theorem isFinite_ofInteger32 (s : Int32) : (ofInteger32 s.toInt).isFinite = true := by
  obtain ⟨hnan, hposition⟩ := position32_ofInteger32 s.toInt
  have hlow : (-2 ^ 31 : ℚ) ≤ s.toInt := by exact_mod_cast s.le_toInt
  have hhigh : (s.toInt : ℚ) ≤ 2 ^ 31 := by exact_mod_cast Int.le_of_lt s.toInt_lt
  exact isFinite_of_storedAt32 (e := 31) ⟨hnan, fits_unpack32 _, hposition⟩
    (abs_le.mpr ⟨hlow, hhigh⟩) (by decide)

theorem position32_quotient (s : Int32) :
    (ofInteger32 s.toInt / fullSimilarity).isNaN = false ∧
      position32 (ofInteger32 s.toInt / fullSimilarity) =
        roundPosition Format.binary32 (value32 (ofInteger32 s.toInt) / 2 ^ 18) := by
  have h := position32_div (isFinite_ofInteger32 s) (y := fullSimilarity) rfl
    (by rw [value32_fullSimilarity]; norm_num)
  rwa [value32_fullSimilarity] at h

theorem position32_quotient_mono {s s' : Int32} (h : s ≤ s') :
    position32 (ofInteger32 s.toInt / fullSimilarity) ≤
      position32 (ofInteger32 s'.toInt / fullSimilarity) := by
  have hconverted : position32 (ofInteger32 s.toInt) ≤ position32 (ofInteger32 s'.toInt) := by
    rw [(position32_ofInteger32 _).2, (position32_ofInteger32 _).2]
    refine roundPosition_mono ?_
    exact_mod_cast Int32.le_iff_toInt_le.mp h
  rw [(position32_quotient s).2, (position32_quotient s').2]
  refine roundPosition_mono (div_le_div_of_nonneg_right ?_ (by norm_num))
  exact (position32_le_iff (isFinite_ofInteger32 s) (isFinite_ofInteger32 s')).mp hconverted

theorem position32_cosineOf (s : Int32) :
    position32 (cosineOf s) =
      max (-0x3f800000) (min 0x3f800000
        (position32 (ofInteger32 s.toInt / fullSimilarity))) :=
  (position32_clampUnit (position32_quotient s).1).2

theorem isNaN_cosineOf (s : Int32) : (cosineOf s).isNaN = false :=
  (position32_clampUnit (position32_quotient s).1).1

theorem neg_one_le_cosineOf (s : Int32) : -1 ≤ cosineOf s := by
  refine le_iff_position32.mpr ⟨⟨rfl, isNaN_cosineOf s⟩, ?_⟩
  rw [position32_neg_one, position32_cosineOf]
  omega

theorem cosineOf_le_one (s : Int32) : cosineOf s ≤ 1 := by
  refine le_iff_position32.mpr ⟨⟨isNaN_cosineOf s, rfl⟩, ?_⟩
  rw [position32_one, position32_cosineOf]
  omega

theorem isFinite_cosineOf (s : Int32) : (cosineOf s).isFinite = true :=
  (mem_unit_of_le (neg_one_le_cosineOf s) (cosineOf_le_one s)).1

theorem cosineOf_mono {s s' : Int32} (h : s ≤ s') : cosineOf s ≤ cosineOf s' := by
  refine le_iff_position32.mpr ⟨⟨isNaN_cosineOf s, isNaN_cosineOf s'⟩, ?_⟩
  rw [position32_cosineOf, position32_cosineOf]
  have := position32_quotient_mono h
  omega

/-- Every similarity that the clamp cuts has the cosine of equal descriptors. -/
theorem one_le_cosineOf {s : Int32} (h : 262144 ≤ s) : 1 ≤ cosineOf s := by
  have hfull : 1 ≤ cosineOf 262144 := by decide +kernel
  exact le_trans32 hfull (cosineOf_mono h)

/-! ## The angle -/

section Angle

variable [ArcCosine] [ArcCosine.Lawful]

theorem isFinite_angle (s : Int32) : (angle s).isFinite = true :=
  ArcCosine.Lawful.isFinite_arccos _ (neg_one_le_cosineOf s) (cosineOf_le_one s)

theorem isNaN_angle (s : Int32) : (angle s).isNaN = false := isNaN_of_isFinite (isFinite_angle s)

theorem position32_angle_nonneg (s : Int32) : 0 ≤ position32 (angle s) := by
  have hnonneg : 0 ≤ angle s :=
    ArcCosine.Lawful.arccos_nonneg _ (neg_one_le_cosineOf s) (cosineOf_le_one s)
  exact (le_iff_position32.mp hnonneg).2

theorem position32_angle_lt (s : Int32) : position32 (angle s) < 0x7f800000 :=
  position_lt_topRank (F := Format.binary32) (fits_unpack32 (angle s)) (isFinite_angle s)

/-- **A smaller cosine never has a smaller angle.** -/
theorem position32_angle_le_of_cosineOf {s s' : Int32} (h : cosineOf s ≤ cosineOf s') :
    position32 (angle s') ≤ position32 (angle s) := by
  have hle : angle s' ≤ angle s :=
    ArcCosine.Lawful.arccos_antitone _ _ (neg_one_le_cosineOf s) h (cosineOf_le_one s')
  exact (le_iff_position32.mp hle).2

/-- **A higher similarity never has a larger angle.** -/
theorem position32_angle_antitone {s s' : Int32} (h : s ≤ s') :
    position32 (angle s') ≤ position32 (angle s) :=
  position32_angle_le_of_cosineOf (cosineOf_mono h)

/-- Similarities that the clamp cuts have the same angle. -/
theorem position32_angle_of_full {s s' : Int32} (h : 262144 ≤ s) (h' : 262144 ≤ s') :
    position32 (angle s) = position32 (angle s') :=
  Int.le_antisymm
    (position32_angle_le_of_cosineOf (le_trans32 (cosineOf_le_one s') (one_le_cosineOf h)))
    (position32_angle_le_of_cosineOf (le_trans32 (cosineOf_le_one s) (one_le_cosineOf h')))

theorem value32_angle_nonneg (s : Int32) : 0 ≤ value32 (angle s) := by
  have hzero : value32 0 = 0 := rfl
  rw [← hzero, ← position32_le_iff rfl (isFinite_angle s)]
  exact position32_angle_nonneg s

theorem value32_angle_antitone {s s' : Int32} (h : s ≤ s') :
    value32 (angle s') ≤ value32 (angle s) :=
  (position32_le_iff (isFinite_angle s') (isFinite_angle s)).mp (position32_angle_antitone h)

end Angle

/-! ## The ratio test -/

theorem not_le_neg_infinity32 {ratio : Float32} (h : 0 < ratio) : ¬ratio ≤ -infinity32 := by
  intro hle
  obtain ⟨-, hlow⟩ := lt_iff_position32.mp h
  obtain ⟨-, hhigh⟩ := le_iff_position32.mp hle
  have hzero : position32 0 = 0 := rfl
  have hinfinity : position32 (-infinity32) = -0x7f800000 := rfl
  omega

section Ratio

variable [ArcCosine] [ArcCosine.Lawful]

/-- A ratio that is NaN or `+∞` lets every choice pass. -/
theorem not_ratio_mul_angle_le {ratio : Float32} (hinfinite : ¬ratio.isFinite = true)
    (hratio : ¬ratio ≤ -infinity32) (s best : Int32) : ¬ratio * angle s ≤ angle best := by
  intro hpass
  obtain ⟨⟨hproduct, -⟩, hle⟩ := le_iff_position32.mp hpass
  have hnan : ratio.isNaN = (unpack32 ratio).isNaN := rfl
  have hfinite : ratio.isFinite = (unpack32 ratio).isFinite := rfl
  cases hu : unpack32 ratio with
  | notANumber =>
    rw [hu] at hnan
    rw [isNaN_mul_of_isNaN hnan] at hproduct
    cases hproduct
  | zero s' | finite s' m e hm =>
    rw [hu] at hfinite
    exact hinfinite hfinite
  | infinity s' =>
    cases s' with
    | positive =>
      rcases infinity_mul_cases hu (isFinite_angle s) (position32_angle_nonneg s) with h | h
      · rw [h] at hproduct
        cases hproduct
      -- Infinity is not below any angle.
      · have hbelow := position32_angle_lt best
        omega
    | negative =>
      rw [hu] at hnan
      have hposition : position32 ratio = -0x7f800000 := by
        rw [position32, hu]
        rfl
      exact hratio (le_iff_position32.mpr ⟨⟨hnan, rfl⟩, hposition.le⟩)

/-- **A larger ratio makes the ratio test easier to pass**, up to infinity, where it always does. -/
theorem ratio_mul_angle_le_of_ratio_le {ratio ratio' : Float32} (hpos : 0 < ratio)
    (hle : ratio ≤ ratio') {s best : Int32} (hpass : ratio' * angle s ≤ angle best) :
    ratio * angle s ≤ angle best := by
  have hratio' : ¬ratio' ≤ -infinity32 := not_le_neg_infinity32 (lt_of_lt_of_le32 hpos hle)
  have hfinite' : ratio'.isFinite = true := by
    by_contra hinfinite
    exact not_ratio_mul_angle_le hinfinite hratio' s best hpass
  obtain ⟨⟨-, hnan⟩, hlow⟩ := lt_iff_position32.mp hpos
  obtain ⟨-, horder⟩ := le_iff_position32.mp hle
  have hzero : position32 0 = 0 := rfl
  have hbelow : position32 ratio' < 0x7f800000 :=
    position_lt_topRank (F := Format.binary32) (fits_unpack32 ratio') hfinite'
  have hfinite : ratio.isFinite = true := isFinite_of_position32 hnan (by omega) (by omega)
  -- Both finite: the exact products are ordered, and so are their roundings.
  obtain ⟨hproduct, hposition⟩ := position32_mul hfinite (isFinite_angle s)
  obtain ⟨-, hposition'⟩ := position32_mul hfinite' (isFinite_angle s)
  obtain ⟨-, htest⟩ := le_iff_position32.mp hpass
  refine le_iff_position32.mpr ⟨⟨hproduct, isNaN_angle best⟩, ?_⟩
  rw [hposition'] at htest
  rw [hposition]
  refine Int.le_trans (roundPosition_mono ?_) htest
  refine mul_le_mul_of_nonneg_right ?_ (value32_angle_nonneg s)
  exact (position32_le_iff hfinite hfinite').mp horder

/-- **A ratio of at most one never lets a choice pass whose runner-up is as near.** -/
theorem ratio_mul_angle_le_self {ratio : Float32} (hpos : 0 < ratio) (hle : ratio ≤ 1) (s : Int32) :
    ratio * angle s ≤ angle s := by
  obtain ⟨⟨-, hnan⟩, hlow⟩ := lt_iff_position32.mp hpos
  obtain ⟨-, hhigh⟩ := le_iff_position32.mp hle
  rw [position32_one] at hhigh
  have hzero : position32 0 = 0 := rfl
  have hfinite : ratio.isFinite = true := isFinite_of_position32 hnan (by omega) (by omega)
  have hvalue : value32 ratio ≤ 1 := by
    rw [← value32_one, ← position32_le_iff hfinite rfl, position32_one]
    exact hhigh
  obtain ⟨hproduct, hposition⟩ := position32_mul hfinite (isFinite_angle s)
  refine le_iff_position32.mpr ⟨⟨hproduct, isNaN_angle s⟩, ?_⟩
  rw [hposition, ← roundPosition_value32 (isFinite_angle s)]
  exact roundPosition_mono (mul_le_of_le_one_left (value32_angle_nonneg s) hvalue)

/-- With a finite ratio the part that limits a choice grows with the runner-up's angle, unless the
ratio is negative; then it is negative as well, and no angle is. -/
theorem ratio_mul_angle_le_of_isFinite {ratio : Float32} (hratio : ratio.isFinite = true)
    {s s' best : Int32} (h : s' ≤ s) (hpass : ratio * angle s' ≤ angle best) :
    ratio * angle s ≤ angle best := by
  obtain ⟨hnan, hposition⟩ := position32_mul hratio (isFinite_angle s)
  obtain ⟨-, hposition'⟩ := position32_mul hratio (isFinite_angle s')
  obtain ⟨-, hle⟩ := le_iff_position32.mp hpass
  rw [hposition'] at hle
  refine le_iff_position32.mpr ⟨⟨hnan, isNaN_angle best⟩, ?_⟩
  rw [hposition]
  rcases le_or_gt 0 (value32 ratio) with hpos | hneg
  · refine Int.le_trans (roundPosition_mono ?_) hle
    exact mul_le_mul_of_nonneg_left (value32_angle_antitone h) hpos
  -- A negative ratio: the product is not above zero, and no angle is below it.
  · refine Int.le_trans (roundPosition_nonpos ?_) (position32_angle_nonneg best)
    exact mul_nonpos_of_nonpos_of_nonneg hneg.le (value32_angle_nonneg s)

/-- **A runner-up that is further away makes the ratio test easier to pass.** -/
theorem ratio_mul_angle_le_of_le {ratio : Float32} (hratio : ¬ratio ≤ -infinity32)
    {s s' best : Int32} (h : s' ≤ s) (hpass : ratio * angle s' ≤ angle best) :
    ratio * angle s ≤ angle best := by
  by_cases hfinite : ratio.isFinite = true
  · exact ratio_mul_angle_le_of_isFinite hfinite h hpass
  · exact absurd hpass (not_ratio_mul_angle_le hfinite hratio s' best)

end Ratio

/-- With `-∞` it is the other way round: the product is NaN for a runner-up of angle 0. -/
example : -infinity32 * angle 0 ≤ angle 0 ∧ ¬-infinity32 * angle 262144 ≤ angle 0 := by
  decide +kernel

end FeatureMatching
