import Mathlib
import FeatureMatching.Proofs.Float.Root
import FeatureMatching.Proofs.Float.Scaling

/-!
# How far a rounded value is from the exact one

The nearest integer is at most a half away, so a rounded value is at most half a unit of its last
place away (`gridValue_le_add`). Where a number is resolved that is a small part of the number
itself, the same for all sizes (`roundValue_le_of_resolved`), and a sum of two floats is always
resolved. Products are not: below the least normal number a rounded value may be up to twice the
exact one (`roundValue_le_two_mul`), and zero when that is at most half of the least subnormal
(`roundValue_eq_zero_iff`).

Only the bounds from above are here. They say how large a sum, a product or a root of binary32
numbers can be, and so when it is finite.
-/

set_option autoImplicit false

namespace FeatureMatching.Numeric

open Float.Model (Format UnpackedFloat)
open Float.Model.UnpackedFloat

/-! ## The nearest integer -/

section NearestEven

variable {x : ℚ}

theorem nearestEven_le_add_half (hx : 0 ≤ x) : (nearestEven x : ℚ) ≤ x + 1 / 2 := by
  have hfloor : (⌊x⌋₊ : ℚ) ≤ x := Nat.floor_le hx
  unfold nearestEven
  split
  · linarith
  · rename_i heq
    have hhalf := compare_eq_iff_eq.mp heq
    have hparity : ((⌊x⌋₊ % 2 : Nat) : ℚ) ≤ 1 := by
      exact_mod_cast Nat.le_of_lt_succ (Nat.mod_lt _ two_pos)
    push_cast
    linarith
  · rename_i hgt
    have hhalf := compare_gt_iff_gt.mp hgt
    push_cast
    linarith

/-- A half is rounded to the even integer, which is zero. -/
theorem nearestEven_eq_zero_iff : nearestEven x = 0 ↔ x ≤ 1 / 2 := by
  constructor
  · intro h
    have hfloor : ⌊x⌋₊ = 0 := Nat.le_zero.mp (h ▸ floor_le_nearestEven x)
    unfold nearestEven at h
    rw [hfloor, Nat.cast_zero, zero_add] at h
    by_contra hlt
    rw [compare_gt_iff_gt.mpr (not_le.mp hlt)] at h
    cases h
  · intro h
    have hhalf : nearestEven (1 / 2) = 0 := by
      have hfloor : ⌊(1 / 2 : ℚ)⌋₊ = 0 := Nat.floor_eq_zero.mpr (by norm_num)
      unfold nearestEven
      rw [hfloor, Nat.cast_zero, zero_add, compare_eq_iff_eq.mpr rfl]
    exact Nat.le_zero.mp (hhalf ▸ nearestEven_mono h)

end NearestEven

/-! ## Rounded values -/

section RoundValue

variable {F : Format} {x : ℚ}

/-- The largest error of a rounded value, relative to the exact one. -/
def unitRoundoff (F : Format) : ℚ := 1 / (2 * binade F)

theorem unitRoundoff_nonneg (F : Format) : 0 ≤ unitRoundoff F := by
  unfold unitRoundoff
  positivity

theorem roundValue_nonneg (hx : 0 ≤ x) : 0 ≤ roundValue F x := by
  rw [roundValue_of_nonneg hx]
  exact mul_nonneg (Nat.cast_nonneg _) (zpow_pos two_pos _).le

/-- **A rounded value is at most half a unit of its last place above the exact one.** -/
theorem gridValue_le_add (hx : 0 ≤ x) : gridValue F x ≤ x + 2 ^ quantum F x / 2 := by
  have hpow : (0 : ℚ) < 2 ^ quantum F x := zpow_pos two_pos _
  calc gridValue F x ≤ (x / 2 ^ quantum F x + 1 / 2) * 2 ^ quantum F x :=
        mul_le_mul_of_nonneg_right (nearestEven_le_add_half (div_nonneg hx hpow.le)) hpow.le
    _ = x + 2 ^ quantum F x / 2 := by field_simp

theorem binade_mul_zpow_quantum_le_of_normal
    (h : 2 ^ (F.minExponent + F.mantissaBitsWithoutImplicit) ≤ x) :
    binade F * 2 ^ quantum F x ≤ x := by
  by_cases hleast : quantum F x = F.minExponent
  · rw [hleast, binade_mul_zpow]
    exact h
  · exact binade_mul_zpow_quantum_le ((zpow_pos two_pos _).trans_le h) hleast

theorem gridValue_le_of_normal (h : 2 ^ (F.minExponent + F.mantissaBitsWithoutImplicit) ≤ x) :
    gridValue F x ≤ (1 + unitRoundoff F) * x := by
  have hbinade : (0 : ℚ) < binade F := by exact_mod_cast binade_pos F
  have hhalf : 2 ^ quantum F x / 2 ≤ unitRoundoff F * x := by
    have hplace := binade_mul_zpow_quantum_le_of_normal h
    unfold unitRoundoff
    rw [div_mul_eq_mul_div, one_mul, div_le_div_iff₀ two_pos (by positivity)]
    linarith
  have hadd := gridValue_le_add (F := F) ((zpow_pos two_pos _).le.trans h)
  linarith

/-- **Rounding adds a small part of the number at most**, where the number is resolved. -/
theorem roundValue_le_of_resolved (hx : 0 ≤ x) (h : Resolved F x) :
    roundValue F x ≤ (1 + unitRoundoff F) * x := by
  rw [roundValue_of_nonneg hx]
  rcases le_or_gt (2 ^ (F.minExponent + F.mantissaBitsWithoutImplicit)) x with hnormal | hsmall
  · exact gridValue_le_of_normal hnormal
  -- A multiple of the least subnormal that small is exact.
  · have hmultiple := h.resolve_left (by rw [abs_of_nonneg hx]; exact not_le.mpr hsmall)
    have hexact : gridValue F x = x := by
      rcases hx.eq_or_lt with rfl | hpos
      · exact gridValue_zero F
      · simpa using gridValue_scale_of_small hpos hsmall.le hmultiple 0
    rw [hexact]
    exact le_mul_of_one_le_left hx (le_add_of_nonneg_right (unitRoundoff_nonneg F))

/-- **Only what is at most half of the least subnormal is rounded to zero.** -/
theorem roundValue_eq_zero_iff (hx : 0 ≤ x) :
    roundValue F x = 0 ↔ x ≤ 2 ^ F.minExponent / 2 := by
  have hpow (e : Int) : (0 : ℚ) < 2 ^ e := zpow_pos two_pos e
  rw [roundValue_of_nonneg hx]
  rcases hx.eq_or_lt with rfl | hpos
  · simp only [gridValue_zero, true_iff]
    exact (half_pos (hpow _)).le
  have hmantissa : gridValue F x = 0 ↔ gridMantissa F x = 0 := by
    rw [gridValue, mul_eq_zero, or_iff_left (hpow _).ne', Nat.cast_eq_zero]
  rw [hmantissa]
  by_cases hleast : quantum F x = F.minExponent
  · rw [gridMantissa, nearestEven_eq_zero_iff, hleast, div_le_iff₀ (hpow _), one_div_mul_eq_div]
  -- In a higher binade the mantissa is full, and the number is above the least subnormal.
  · have hfull := binade_le_gridMantissa hpos hleast
    have hbinade := binade_pos F
    have hlarge : (2 : ℚ) ^ F.minExponent ≤ x := by
      refine (zpow_le_zpow_right₀ one_le_two (minExponent_le_quantum F x)).trans ?_
      refine le_trans ?_ (binade_mul_zpow_quantum_le hpos hleast)
      exact le_mul_of_one_le_left (hpow _).le (by exact_mod_cast hbinade)
    have hhalf := half_lt_self (hpow F.minExponent)
    exact iff_of_false (by omega) (not_le.mpr (hhalf.trans_le hlarge))

/-- **Rounding at most doubles a number**, unless it is too small to be told from zero. -/
theorem roundValue_le_two_mul (h : 2 ^ F.minExponent / 2 ≤ x) : roundValue F x ≤ 2 * x := by
  have hx : 0 < x := (half_pos (zpow_pos two_pos _)).trans_le h
  rw [roundValue_of_nonneg hx.le]
  rcases le_or_gt (2 ^ (F.minExponent + F.mantissaBitsWithoutImplicit)) x with hnormal | hsmall
  · have hunit : unitRoundoff F ≤ 1 := by
      have hbinade : (1 : ℚ) ≤ binade F := by exact_mod_cast binade_pos F
      exact (div_le_one (by positivity)).mpr (by linarith)
    have hrelative := gridValue_le_of_normal hnormal
    have hproduct := mul_le_mul_of_nonneg_right hunit hx.le
    linarith
  · have hleast : quantum F x = F.minExponent := by
      refine le_antisymm (quantum_le_of_lt hx (hsmall.trans ?_) le_rfl)
        (minExponent_le_quantum F x)
      exact zpow_lt_zpow_right₀ one_lt_two (by omega)
    have hadd := gridValue_le_add (F := F) hx.le
    rw [hleast] at hadd
    linarith

end RoundValue

/-! ## Binary32 -/

section Binary32

variable {u : UnpackedFloat} {x y : Float32} {z : ℚ}

theorem unitRoundoff_binary32 : unitRoundoff .binary32 = 1 / 2 ^ 24 := by
  have hbinade : binade .binary32 = 2 ^ 23 := rfl
  unfold unitRoundoff
  rw [hbinade]
  norm_num

theorem value32_zero : value32 0 = 0 := rfl

theorem value32_of_unpack {m : Nat} {e : Int} {hm : 0 < m}
    (h : unpack32 x = .finite .positive m e hm) : value32 x = m * 2 ^ e := by
  rw [value32, h, value_finite]
  simp [Sign.apply]

/-- The largest finite number. -/
def largest32 : Float32 := .ofBits 0x7f7fffff

theorem value32_largest32 : value32 largest32 = (2 ^ 24 - 1) * 2 ^ 104 := by
  have hlargest : unpack32 largest32 = .finite .positive 16777215 104 (by decide) := rfl
  rw [value32_of_unpack hlargest]
  norm_num

/-- A result that is not above the largest finite number is finite. -/
theorem isFinite_of_le_largest32 (h : StoredAt .binary32 u (roundPosition .binary32 z))
    (hz : 0 ≤ z) (hle : z ≤ value32 largest32) : u.isFinite = true := by
  have hmono := roundPosition_mono (F := .binary32) hle
  have hnonneg := roundPosition_nonneg (F := .binary32) hz
  rw [roundPosition_value32 rfl] at hmono
  have hlargest := position_lt_topRank (fits_unpack32 largest32) rfl
  have htop := topRank_pos .binary32
  refine isFinite_of_position_lt (F := .binary32) h.isNaN_eq ?_ ?_ <;> rw [h.position_eq]
  · omega
  · exact hmono.trans_lt hlargest

/-- A result that is not below `2 ^ 128` overflows. -/
theorem not_isFinite_of_le (h : StoredAt .binary32 u (roundPosition .binary32 z))
    (hz : 2 ^ (128 : Int) ≤ z) : u.isFinite = false := by
  have hcanonical : Canonical .binary32 (binade .binary32) 105 :=
    ⟨by decide, by decide, .inl le_rfl⟩
  have htop : roundPosition .binary32 (2 ^ (128 : Int)) = topRank .binary32 := by
    have hvalue : (2 : ℚ) ^ (128 : Int) = binade .binary32 * 2 ^ (105 : Int) := by
      rw [binade_mul_zpow]
      rfl
    rw [roundPosition_of_nonneg (by positivity), roundRank, hvalue,
      gridRank_canonical (binade_pos _) hcanonical]
    rfl
  have hmono := roundPosition_mono (F := .binary32) hz
  rw [htop, ← h.position_eq] at hmono
  by_contra hfinite
  have hbelow := position_lt_topRank h.fits (Bool.eq_true_of_not_eq_false hfinite)
  omega

/-! ### Sums and products -/

theorem value32_nonneg (h : HasSign .positive (unpack32 x)) : 0 ≤ value32 x := by
  unfold value32
  cases hu : unpack32 x with
  | notANumber | infinity s | zero s => exact le_rfl
  | finite s m e hm =>
    rw [hu] at h
    obtain rfl : s = .positive := h
    rw [value_finite]
    simp only [Sign.apply, Int.cast_one, one_mul]
    positivity

/-- A number that is not above the exact sum is not above the rounded one. -/
theorem le_value32_add {c : Float32} (h : (x + y).isFinite = true) (hc : c.isFinite = true)
    (hle : value32 c ≤ value32 x + value32 y) : value32 c ≤ value32 (x + y) := by
  obtain ⟨hx, hy⟩ := isFinite_of_add32 h
  rw [← position32_le_iff hc h, (position32_add hx hy).2, ← roundPosition_value32 hc]
  exact roundPosition_mono hle

theorem value32_add_le (h : (x + y).isFinite = true) (hx : 0 ≤ value32 x) (hy : 0 ≤ value32 y) :
    value32 (x + y) ≤ (1 + unitRoundoff .binary32) * (value32 x + value32 y) := by
  rw [value32_add h]
  refine roundValue_le_of_resolved (add_nonneg hx hy) (.inr ?_)
  exact (isMultiple_value (fits_unpack32 x)).add (isMultiple_value (fits_unpack32 y))

theorem isFinite_add32 (hfx : x.isFinite = true) (hfy : y.isFinite = true) (hx : 0 ≤ value32 x)
    (hy : 0 ≤ value32 y) (hle : value32 x + value32 y ≤ value32 largest32) :
    (x + y).isFinite = true :=
  isFinite_of_le_largest32
    (storedAt_add (F := .binary32) (by decide) (fits_unpack32 x) (fits_unpack32 y) hfx hfy)
    (add_nonneg hx hy) hle

theorem storedAt_mul32 (hfx : x.isFinite = true) (hfy : y.isFinite = true) :
    StoredAt .binary32 (unpack32 (x * y)) (roundPosition .binary32 (value32 x * value32 y)) :=
  storedAt_mul (F := .binary32) (by decide) (fits_unpack32 x) (fits_unpack32 y) hfx hfy

/-- A quotient is at least a number whose product with the divisor is not above the dividend. -/
theorem le_div32 {c : Float32} (hc : c.isFinite = true) (hx : x.isFinite = true)
    (hy : y.isFinite = true) (hpos : 0 < value32 y) (h : value32 c * value32 y ≤ value32 x) :
    c ≤ x / y := by
  obtain ⟨hnan, hposition⟩ := position32_div hx hy hpos.ne'
  refine le_iff_position32.mpr ⟨⟨isNaN_of_isFinite hc, hnan⟩, ?_⟩
  rw [hposition, ← roundPosition_value32 hc]
  exact roundPosition_mono ((le_div_iff₀ hpos).mpr h)

/-! ### Roots -/

theorem isFinite_of_sqrt32 (h : x.sqrt.isFinite = true) : x.isFinite = true := by
  have hroot : (settle .binary32 (sqrt .binary32 (unpack32 x))).isFinite = true := h
  show (unpack32 x).isFinite = true
  cases hu : unpack32 x with
  | zero s | finite s m e hm => rfl
  | notANumber =>
    rw [hu] at hroot
    simp [sqrt, UnpackedFloat.isFinite] at hroot
  | infinity s =>
    rw [hu] at hroot
    cases s <;> simp [sqrt, UnpackedFloat.isFinite] at hroot

theorem isMultiple_value32 (x : Float32) : IsMultiple (-149) (value32 x) :=
  isMultiple_value (F := .binary32) (fits_unpack32 x)

theorem least_le_value32 (hpos : 0 < value32 x) : 2 ^ (-149 : Int) ≤ value32 x := by
  obtain ⟨n, hn⟩ := isMultiple_value32 x
  have hpow : (0 : ℚ) < 2 ^ (-149 : Int) := zpow_pos two_pos _
  rw [hn] at hpos ⊢
  have hone : (1 : ℚ) ≤ n := by
    have : 0 < n := by exact_mod_cast pos_of_mul_pos_left hpos hpow.le
    exact_mod_cast this
  exact le_mul_of_one_le_left hpow.le hone

theorem value32_le (hx : x.isFinite = true) : value32 x ≤ 2 ^ (128 : Int) := by
  have hbound := (Within.widen hx).abs_le
  rw [value64_widen] at hbound
  exact (le_abs_self _).trans hbound

section PositiveRoot

variable (hx : x.isFinite = true) (hpos : 0 < value32 x)

include hx hpos

/-- The root lies between two numbers that are rounded to it. -/
theorem exists_storedAt_sqrt32 :
    ∃ low high : ℚ, 0 ≤ high ∧ low ^ 2 ≤ value32 x ∧ value32 x ≤ high ^ 2 ∧
      StoredAt .binary32 (unpack32 x.sqrt) (roundPosition .binary32 low) ∧
      StoredAt .binary32 (unpack32 x.sqrt) (roundPosition .binary32 high) := by
  refine exists_storedAt_sqrt (F := .binary32) (by decide) hx ?_
  have hposition := roundPosition_nonneg (F := .binary32) hpos.le
  rwa [roundPosition_value32 hx] at hposition

theorem isFinite_sqrt32 : x.sqrt.isFinite = true := by
  obtain ⟨low, -, -, hlow, -, hstored, -⟩ := exists_storedAt_sqrt32 hx hpos
  have hbound : |low| ≤ 2 ^ (64 : Int) := by
    refine abs_le_of_sq_le_sq (hlow.trans ((value32_le hx).trans_eq ?_)) (by positivity)
    norm_num
  exact isFinite_of_storedAt32 hstored hbound (by decide)

theorem sqrt32_pos : 0 < value32 x.sqrt := by
  obtain ⟨-, high, hhigh, -, hsquare, -, hstored⟩ := exists_storedAt_sqrt32 hx hpos
  have hlarge : (2 : ℚ) ^ (-75 : Int) ≤ high := by
    refine le_of_sq_le_sq (le_trans ?_ ((least_le_value32 hpos).trans hsquare)) hhigh
    norm_num
  have hzero : ¬high ≤ (2 : ℚ) ^ Format.binary32.minExponent / 2 := by
    refine not_le.mpr (lt_of_lt_of_le ?_ hlarge)
    show (2 : ℚ) ^ (-149 : Int) / 2 < 2 ^ (-75 : Int)
    norm_num
  have hvalue : value32 x.sqrt = roundValue .binary32 high :=
    hstored.value_eq (isFinite_sqrt32 hx hpos)
  rw [hvalue]
  exact lt_of_le_of_ne (roundValue_nonneg hhigh)
    (Ne.symm (mt (roundValue_eq_zero_iff hhigh).mp hzero))

/-- **The square of a root is not above the number** by more than rounding adds. -/
theorem sq_sqrt32_le :
    value32 x.sqrt ^ 2 ≤ (1 + unitRoundoff .binary32) ^ 2 * value32 x := by
  obtain ⟨low, -, -, hsquare, -, hstored, -⟩ := exists_storedAt_sqrt32 hx hpos
  have hroot := sqrt32_pos hx hpos
  have hvalue : value32 x.sqrt = roundValue .binary32 low :=
    hstored.value_eq (isFinite_sqrt32 hx hpos)
  have hlow : 0 ≤ low := by
    by_contra hneg
    have hround := roundValue_nonneg (F := .binary32) (neg_nonneg.mpr (not_le.mp hneg).le)
    rw [roundValue_neg, ← hvalue] at hround
    linarith
  rcases le_or_gt ((2 : ℚ) ^ (-126 : Int)) low with hnormal | hsmall
  · have hround : value32 x.sqrt ≤ (1 + unitRoundoff .binary32) * low := by
      rw [hvalue]
      exact roundValue_le_of_resolved hlow (.inl (hnormal.trans (le_abs_self low)))
    calc value32 x.sqrt ^ 2 ≤ ((1 + unitRoundoff .binary32) * low) ^ 2 :=
          pow_le_pow_left₀ hroot.le hround 2
      _ = (1 + unitRoundoff .binary32) ^ 2 * low ^ 2 := mul_pow _ _ 2
      _ ≤ (1 + unitRoundoff .binary32) ^ 2 * value32 x := by gcongr
  -- No number of the format has a root that small.
  · have hround : value32 x.sqrt ≤ 2 ^ (-126 : Int) := by
      rw [hvalue]
      refine (le_abs_self _).trans (abs_roundValue_le ?_ (by decide))
      rw [abs_of_nonneg hlow]
      exact hsmall.le
    calc value32 x.sqrt ^ 2 ≤ (2 ^ (-126 : Int)) ^ 2 := pow_le_pow_left₀ hroot.le hround 2
      _ ≤ 2 ^ (-149 : Int) := by norm_num
      _ ≤ value32 x := least_le_value32 hpos
      _ ≤ (1 + unitRoundoff .binary32) ^ 2 * value32 x :=
        le_mul_of_one_le_left hpos.le
          (one_le_pow₀ (le_add_of_nonneg_right (unitRoundoff_nonneg .binary32)))

end PositiveRoot

end Binary32

end FeatureMatching.Numeric
