import Mathlib
import FeatureMatching.Similarity.Angle
import FeatureMatching.Proofs.Float.Scaling

/-!
# The laws of an arc cosine

Matching asks three things of the arc cosine that angles are taken with (`ArcCosine.Lawful`): on
`[-1, 1]` its values are finite, they are not negative, and a larger cosine has no larger angle.
Nothing is asked of its accuracy, and not even that the angle of 1 is zero. What is proved of a
match under these laws holds for every arc cosine that has them.

The arc cosine of the library has them because of how it is found. Its bit pattern is a count of the
midpoints of the float grid that lie below the angle, which never passes `π`
(`AngleGrid.nearest_le_halfTurn`), and the test of a midpoint says yes to fewer of them when the
cosine is larger (`arccosBits_antitone`).
-/

set_option autoImplicit false

namespace FeatureMatching

open Numeric
open Float.Model (Format UnpackedFloat)
open Float.Model.UnpackedFloat

/-- What is asked of an arc cosine. The comparisons are those of the format, so the values are no
NaN. -/
class ArcCosine.Lawful [ArcCosine] : Prop where
  isFinite_arccos : ∀ x : Float32, -1 ≤ x → x ≤ 1 → (arccos x).isFinite = true
  arccos_nonneg : ∀ x : Float32, -1 ≤ x → x ≤ 1 → 0 ≤ arccos x
  arccos_antitone : ∀ x y : Float32, -1 ≤ x → x ≤ y → y ≤ 1 → arccos y ≤ arccos x

/-! ## The arc cosine of the library -/

/-- The number that the arc cosine compares the cosines of the midpoints with. -/
def arccosArgument : UnpackedFloat → Int
  | .finite sign mantissa exponent _ => sign.apply (magnitude arccosPlaces mantissa exponent)
  | _ => 0

theorem cast_arccosArgument {u : UnpackedFloat} (hu : Fits Format.binary32 u) :
    (arccosArgument u : ℚ) = value u * 2 ^ arccosPlaces := by
  cases u with
  | notANumber | infinity s | zero s => simp [arccosArgument, value]
  | finite s m e hm =>
    -- The shift is to the left: no value has a bit below `2 ^ (-149)`, and the test has 192 places.
    have hleast : -149 ≤ e := hu.1.least
    have hshift : ((e + arccosPlaces).toNat : Int) = e + arccosPlaces :=
      Int.toNat_of_nonneg (by simp only [arccosPlaces]; omega)
    have hmagnitude : (magnitude arccosPlaces m e : ℚ) = m * 2 ^ e * 2 ^ arccosPlaces := by
      unfold magnitude
      rw [Nat.shiftLeft_eq, Nat.cast_mul, Nat.cast_pow, Nat.cast_two, ← zpow_natCast, hshift,
        zpow_add₀ two_ne_zero, zpow_natCast, mul_assoc]
    cases s with
    | positive => simpa [arccosArgument, value, Sign.apply] using hmagnitude
    | negative => simpa [arccosArgument, value, Sign.apply] using hmagnitude

/-- A larger cosine has fewer midpoints below its angle. -/
theorem arccosBits_antitone {v w : Int} (h : v ≤ w) : arccosBits w ≤ arccosBits v :=
  AngleGrid.nearest_mono fun k hk => by
    simp only [decide_eq_true_eq] at hk ⊢
    omega

theorem position32_arccosBits (v : Int) :
    (Float32.ofBits (.ofNat (arccosBits v))).isFinite = true ∧
      position32 (Float32.ofBits (.ofNat (arccosBits v))) = arccosBits v := by
  have hle : arccosBits v ≤ 0x40490fdb := AngleGrid.nearest_le_halfTurn _
  have htop : topRank Format.binary32 = 0x7f800000 := rfl
  have hpattern : (UInt32.ofNat (arccosBits v)).toNat = arccosBits v :=
    UInt32.toNat_ofNat_of_lt' (Nat.lt_of_le_of_lt hle (by decide))
  have h := position32_ofBits (b := .ofNat (arccosBits v)) (by rw [hpattern, htop]; omega)
  rwa [hpattern] at h

theorem magnitude_le_of_mem {s : Sign} {m : Nat} {e : Int} {hm : 0 < m}
    (hu : Fits Format.binary32 (.finite s m e hm)) (hlow : -1 ≤ value (.finite s m e hm))
    (hhigh : value (.finite s m e hm) ≤ 1) : magnitude arccosPlaces m e ≤ 1 <<< arccosPlaces := by
  have hargument := cast_arccosArgument hu
  have hpow : (0 : ℚ) < 2 ^ arccosPlaces := by positivity
  have hbelow : (arccosArgument (.finite s m e hm) : ℚ) ≤ 2 ^ arccosPlaces := by
    rw [hargument]
    exact mul_le_of_le_one_left hpow.le hhigh
  have habove : -(2 ^ arccosPlaces : ℚ) ≤ arccosArgument (.finite s m e hm) := by
    rw [hargument, ← neg_one_mul]
    exact mul_le_mul_of_nonneg_right hlow hpow.le
  have hbelow' : arccosArgument (.finite s m e hm) ≤ 2 ^ arccosPlaces := by exact_mod_cast hbelow
  have habove' : -(2 ^ arccosPlaces) ≤ arccosArgument (.finite s m e hm) := by
    exact_mod_cast habove
  have hcast : (magnitude arccosPlaces m e : Int) ≤ 2 ^ arccosPlaces := by
    cases s <;> simp only [arccosArgument, Sign.apply] at hbelow' habove' <;> omega
  rw [Nat.one_shiftLeft]
  exact_mod_cast hcast

/-- **The arc cosine of a number of `[-1, 1]`** is finite, and its position is the count of the
midpoints. -/
theorem arccos32_of_mem {x : Float32} (hx : x.isFinite = true) (hlow : -1 ≤ value32 x)
    (hhigh : value32 x ≤ 1) :
    (arccos32 x).isFinite = true ∧
      position32 (arccos32 x) = arccosBits (arccosArgument (unpack32 x)) := by
  have hfinite : (unpack32 x).isFinite = true := hx
  have hfits := fits_unpack32 x
  unfold arccos32
  unfold value32 at hlow hhigh
  cases hu : unpack32 x with
  | notANumber | infinity s => rw [hu] at hfinite; cases hfinite
  | zero s => exact position32_arccosBits 0
  | finite s m e hm =>
    rw [hu] at hlow hhigh hfits
    simp only [magnitude_le_of_mem hfits hlow hhigh, if_true]
    exact position32_arccosBits _

theorem mem_unit_of_le {x : Float32} (hlow : -1 ≤ x) (hhigh : x ≤ 1) :
    x.isFinite = true ∧ -1 ≤ value32 x ∧ value32 x ≤ 1 := by
  obtain ⟨⟨-, hnan⟩, hbelow⟩ := le_iff_position32.mp hlow
  obtain ⟨-, habove⟩ := le_iff_position32.mp hhigh
  have hone := position32_one
  have hneg := position32_neg_one
  have hfinite : x.isFinite = true := isFinite_of_position32 hnan (by omega) (by omega)
  refine ⟨hfinite, ?_, ?_⟩
  · rw [← value32_neg_one]
    exact (position32_le_iff rfl hfinite).mp hbelow
  · rw [← value32_one]
    exact (position32_le_iff hfinite rfl).mp habove

/-- **The arc cosine of the library is lawful.** -/
instance ArcCosine.standard_lawful : ArcCosine.Lawful where
  isFinite_arccos := fun x hlow hhigh => by
    obtain ⟨hfinite, hbelow, habove⟩ := mem_unit_of_le hlow hhigh
    exact (arccos32_of_mem hfinite hbelow habove).1
  arccos_nonneg := fun x hlow hhigh => by
    obtain ⟨hfinite, hbelow, habove⟩ := mem_unit_of_le hlow hhigh
    obtain ⟨hangle, hposition⟩ := arccos32_of_mem hfinite hbelow habove
    refine le_iff_position32.mpr ⟨⟨rfl, isNaN_of_isFinite hangle⟩, ?_⟩
    rw [show position32 0 = 0 from rfl]
    exact hposition ▸ Int.natCast_nonneg _
  arccos_antitone := fun x y hlow horder hhigh => by
    obtain ⟨hx, hbelow, habove⟩ := mem_unit_of_le hlow (le_trans32 horder hhigh)
    obtain ⟨hy, hbelow', habove'⟩ := mem_unit_of_le (le_trans32 hlow horder) hhigh
    obtain ⟨hangle, hposition⟩ := arccos32_of_mem hx hbelow habove
    obtain ⟨hangle', hposition'⟩ := arccos32_of_mem hy hbelow' habove'
    have hvalue : value32 x ≤ value32 y :=
      (position32_le_iff hx hy).mp (le_iff_position32.mp horder).2
    have hcast : (arccosArgument (unpack32 x) : ℚ) ≤ arccosArgument (unpack32 y) := by
      rw [cast_arccosArgument (fits_unpack32 x), cast_arccosArgument (fits_unpack32 y)]
      exact mul_le_mul_of_nonneg_right hvalue (by positivity)
    refine le_iff_position32.mpr ⟨⟨isNaN_of_isFinite hangle', isNaN_of_isFinite hangle⟩, ?_⟩
    show position32 (arccos32 y) ≤ position32 (arccos32 x)
    rw [hposition, hposition']
    exact Int.ofNat_le.mpr (arccosBits_antitone (by exact_mod_cast hcast))

end FeatureMatching
