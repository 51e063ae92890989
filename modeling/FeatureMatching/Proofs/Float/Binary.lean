import Mathlib
import FeatureMatching.Proofs.Float.Operations

/-!
# Binary32 and binary64

The two formats that the library computes in, read through the general theory: comparisons are
comparisons of positions, and the arithmetic that the library uses is the exact one, rounded. A NaN
is comparable with nothing, so each comparison also says that no operand is one.
-/

set_option autoImplicit false

namespace FeatureMatching.Numeric

open Float.Model (Format UnpackedFloat)
open Float.Model.UnpackedFloat

/-- The position of a binary32 value. -/
def position32 (x : Float32) : Int := position Format.binary32 (unpack32 x)

def position64 (x : Float) : Int := position Format.binary64 (unpack64 x)

/-- The rational number that a finite binary32 value stands for. -/
def value32 (x : Float32) : ℚ := value (unpack32 x)

/-- The rational number that a finite binary64 value stands for. -/
def value64 (x : Float) : ℚ := value (unpack64 x)

theorem fits_unpack32 (x : Float32) : Fits Format.binary32 (unpack32 x) := fits_unpack _

theorem fits_unpack64 (x : Float) : Fits Format.binary64 (unpack64 x) := fits_unpack _

/-! ## Comparisons -/

section Comparison

variable {F : Format} {u v : UnpackedFloat}

theorem compare_eq_none_of_isNaN (h : ¬(u.isNaN = false ∧ v.isNaN = false)) :
    u.compare v = none := by
  cases u with
  | notANumber => cases v <;> rfl
  | infinity s | zero s | finite s m e hm =>
    cases v with
    | notANumber => cases s <;> rfl
    | infinity s' | zero s' | finite s' m' e' hm' => exact absurd ⟨rfl, rfl⟩ h

theorem unpacked_le_iff (hu : Fits F u) (hv : Fits F v) :
    u.le v = true ↔
      (u.isNaN = false ∧ v.isNaN = false) ∧ position F u ≤ position F v := by
  unfold UnpackedFloat.le
  by_cases hnan : u.isNaN = false ∧ v.isNaN = false
  · rw [compare_eq_compare_position hu hv hnan.1 hnan.2]
    simp [hnan, Ordering.isLE_iff_ne_gt, compare_gt_iff_gt]
  · rw [compare_eq_none_of_isNaN hnan]
    simp [hnan]

theorem unpacked_lt_iff (hu : Fits F u) (hv : Fits F v) :
    u.lt v = true ↔
      (u.isNaN = false ∧ v.isNaN = false) ∧ position F u < position F v := by
  unfold UnpackedFloat.lt
  by_cases hnan : u.isNaN = false ∧ v.isNaN = false
  · rw [compare_eq_compare_position hu hv hnan.1 hnan.2]
    simp [hnan, compare_lt_iff_lt]
  · rw [compare_eq_none_of_isNaN hnan]
    simp [hnan]

theorem unpacked_beq_iff (hu : Fits F u) (hv : Fits F v) :
    u.beq v = true ↔
      (u.isNaN = false ∧ v.isNaN = false) ∧ position F u = position F v := by
  unfold UnpackedFloat.beq
  by_cases hnan : u.isNaN = false ∧ v.isNaN = false
  · rw [compare_eq_compare_position hu hv hnan.1 hnan.2]
    simp [hnan]
  · rw [compare_eq_none_of_isNaN hnan]
    simp [hnan]

end Comparison

theorem le_iff_position32 {x y : Float32} :
    x ≤ y ↔ (x.isNaN = false ∧ y.isNaN = false) ∧ position32 x ≤ position32 y := by
  have h : x ≤ y ↔ (unpack32 x).le (unpack32 y) = true := decide_eq_true_iff
  rw [h, unpacked_le_iff (fits_unpack32 x) (fits_unpack32 y)]
  rfl

theorem lt_iff_position32 {x y : Float32} :
    x < y ↔ (x.isNaN = false ∧ y.isNaN = false) ∧ position32 x < position32 y := by
  have h : x < y ↔ (unpack32 x).lt (unpack32 y) = true := decide_eq_true_iff
  rw [h, unpacked_lt_iff (fits_unpack32 x) (fits_unpack32 y)]
  rfl

theorem le_iff_position64 {x y : Float} :
    x ≤ y ↔ (x.isNaN = false ∧ y.isNaN = false) ∧ position64 x ≤ position64 y := by
  have h : x ≤ y ↔ (unpack64 x).le (unpack64 y) = true := decide_eq_true_iff
  rw [h, unpacked_le_iff (fits_unpack64 x) (fits_unpack64 y)]
  rfl

theorem lt_iff_position64 {x y : Float} :
    x < y ↔ (x.isNaN = false ∧ y.isNaN = false) ∧ position64 x < position64 y := by
  have h : x < y ↔ (unpack64 x).lt (unpack64 y) = true := decide_eq_true_iff
  rw [h, unpacked_lt_iff (fits_unpack64 x) (fits_unpack64 y)]
  rfl

theorem beq_iff_position64 {x y : Float} :
    (x == y) = true ↔ (x.isNaN = false ∧ y.isNaN = false) ∧ position64 x = position64 y :=
  unpacked_beq_iff (fits_unpack64 x) (fits_unpack64 y)

/-- Finite values are ordered by the numbers that they stand for. -/
theorem position32_le_iff {x y : Float32} (hx : x.isFinite = true) (hy : y.isFinite = true) :
    position32 x ≤ position32 y ↔ value32 x ≤ value32 y :=
  position_le_iff_value_le (fits_unpack32 x) (fits_unpack32 y) hx hy

theorem roundPosition_value32 {x : Float32} (hx : x.isFinite = true) :
    roundPosition Format.binary32 (value32 x) = position32 x :=
  roundPosition_value (fits_unpack32 x) hx

theorem isNaN_of_isFinite {x : Float32} (hx : x.isFinite = true) : x.isNaN = false :=
  isNaN_of_finite (u := unpack32 x) hx

theorem isFinite_of_position32 {x : Float32} (hnan : x.isNaN = false)
    (hlow : -(0x7f800000 : Int) < position32 x) (hhigh : position32 x < 0x7f800000) :
    x.isFinite = true :=
  isFinite_of_position_lt (F := Format.binary32) (u := unpack32 x) hnan hlow hhigh

/-! ## Arithmetic -/

theorem unpack32_mul (x y : Float32) :
    unpack32 (x * y) = settle Format.binary32 (mul Format.binary32 (unpack32 x) (unpack32 y)) := rfl

theorem unpack32_div (x y : Float32) :
    unpack32 (x / y) = settle Format.binary32 (div Format.binary32 (unpack32 x) (unpack32 y)) := rfl

theorem position32_mul {x y : Float32} (hx : x.isFinite = true) (hy : y.isFinite = true) :
    (x * y).isNaN = false ∧
      position32 (x * y) = roundPosition Format.binary32 (value32 x * value32 y) := by
  have h := storedAt_mul (F := Format.binary32) (by decide) (fits_unpack32 x) (fits_unpack32 y)
    hx hy
  exact ⟨h.isNaN_eq, h.position_eq⟩

theorem position32_div {x y : Float32} (hx : x.isFinite = true) (hy : y.isFinite = true)
    (hne : value32 y ≠ 0) :
    (x / y).isNaN = false ∧
      position32 (x / y) = roundPosition Format.binary32 (value32 x / value32 y) := by
  have h := storedAt_div (F := Format.binary32) (by decide) (u := unpack32 x) hx hy hne
  exact ⟨h.isNaN_eq, h.position_eq⟩

theorem position32_ofInteger32 (n : Int) :
    (ofInteger32 n).isNaN = false ∧
      position32 (ofInteger32 n) = roundPosition Format.binary32 n := by
  have h := storedAt_round (F := Format.binary32) (by decide) (s := signOf n) n.natAbs 0
  have hvalue : (((signOf n).apply 1 : Int) : ℚ) * (n.natAbs * 2 ^ (0 : Int)) = n := by
    rw [zpow_zero, mul_one]
    have hint : (signOf n).apply 1 * (n.natAbs : Int) = n := by
      unfold signOf
      split <;> simp only [Sign.apply] <;> omega
    have hcast := congrArg (fun k : Int => (k : ℚ)) hint
    simpa only [Int.cast_mul, Int.cast_natCast] using hcast
  rw [hvalue] at h
  exact ⟨h.isNaN_eq, h.position_eq⟩

theorem isNaN_mul_of_isNaN {x y : Float32} (h : x.isNaN = true) : (x * y).isNaN = true := by
  have hunpacked : (unpack32 x).isNaN = true := h
  show (unpack32 (x * y)).isNaN = true
  rw [unpack32_mul]
  cases hx : unpack32 x with
  | notANumber => cases unpack32 y <;> simp only [mul, settle_notANumber] <;> rfl
  | infinity s | zero s | finite s m e hm => rw [hx] at hunpacked; cases hunpacked

/-- Infinity times a finite value that is not negative: not comparable, or infinity. -/
theorem infinity_mul_cases {x y : Float32} (hx : unpack32 x = .infinity .positive)
    (hy : y.isFinite = true) (hpos : 0 ≤ position32 y) :
    (x * y).isNaN = true ∨ position32 (x * y) = 0x7f800000 := by
  have hfinite : (unpack32 y).isFinite = true := hy
  have hproduct := unpack32_mul x y
  rw [hx] at hproduct
  have hnan : (x * y).isNaN = (unpack32 (x * y)).isNaN := rfl
  unfold position32 at hpos ⊢
  cases hu : unpack32 y with
  | notANumber | infinity s => rw [hu] at hfinite; cases hfinite
  | zero s =>
    left
    rw [hnan, hproduct, hu]
    simp only [mul, settle_notANumber]
    rfl
  | finite s m e hm =>
    right
    have hrank := rank_pos (F := Format.binary32) (e := e) hm
    rw [hproduct, hu]
    rw [hu] at hpos
    cases s with
    | positive =>
      simp only [mul, settle_infinity]
      rfl
    | negative =>
      simp only [position, Sign.apply] at hpos
      omega

theorem square_le_square64 {x y : Float} (hx : 0 < x) (h : x ≤ y) : x * x ≤ y * y := by
  obtain ⟨-, hpos⟩ := lt_iff_position64.mp hx
  obtain ⟨⟨hnx, hny⟩, hle⟩ := le_iff_position64.mp h
  have hzero : position64 0 = 0 := rfl
  obtain ⟨j, k, hj, hk, hjk⟩ := position_square_mono (F := Format.binary64) (by decide)
    (fits_unpack64 x) (fits_unpack64 y) hnx hny (hzero ▸ hpos.le) hle
  refine le_iff_position64.mpr ⟨⟨hj.isNaN_eq, hk.isNaN_eq⟩, ?_⟩
  exact hj.position_eq.trans_le (hjk.trans_eq hk.position_eq.symm)

theorem lt_of_le_of_lt64 {x y z : Float} (h : x ≤ y) (h' : y < z) : x < z := by
  obtain ⟨⟨hx, -⟩, hxy⟩ := le_iff_position64.mp h
  obtain ⟨⟨-, hz⟩, hyz⟩ := lt_iff_position64.mp h'
  exact lt_iff_position64.mpr ⟨⟨hx, hz⟩, Int.lt_of_le_of_lt hxy hyz⟩

theorem le_trans32 {x y z : Float32} (h : x ≤ y) (h' : y ≤ z) : x ≤ z := by
  obtain ⟨⟨hx, -⟩, hxy⟩ := le_iff_position32.mp h
  obtain ⟨⟨-, hz⟩, hyz⟩ := le_iff_position32.mp h'
  exact le_iff_position32.mpr ⟨⟨hx, hz⟩, Int.le_trans hxy hyz⟩

theorem lt_of_le_of_lt32 {x y z : Float32} (h : x ≤ y) (h' : y < z) : x < z := by
  obtain ⟨⟨hx, -⟩, hxy⟩ := le_iff_position32.mp h
  obtain ⟨⟨-, hz⟩, hyz⟩ := lt_iff_position32.mp h'
  exact lt_iff_position32.mpr ⟨⟨hx, hz⟩, Int.lt_of_le_of_lt hxy hyz⟩

theorem lt_of_lt_of_le32 {x y z : Float32} (h : x < y) (h' : y ≤ z) : x < z := by
  obtain ⟨⟨hx, -⟩, hxy⟩ := lt_iff_position32.mp h
  obtain ⟨⟨-, hz⟩, hyz⟩ := le_iff_position32.mp h'
  exact lt_iff_position32.mpr ⟨⟨hx, hz⟩, Int.lt_of_lt_of_le hxy hyz⟩

theorem le_of_not_lt32 {x y : Float32} (hx : x.isNaN = false) (hy : y.isNaN = false)
    (h : ¬x < y) : y ≤ x := by
  refine le_iff_position32.mpr ⟨⟨hy, hx⟩, ?_⟩
  by_contra hlt
  exact h (lt_iff_position32.mpr ⟨⟨hx, hy⟩, not_le.mp hlt⟩)

theorem lt_of_not_le32 {x y : Float32} (hx : x.isNaN = false) (hy : y.isNaN = false)
    (h : ¬x ≤ y) : y < x := by
  refine lt_iff_position32.mpr ⟨⟨hy, hx⟩, ?_⟩
  by_contra hle
  exact h (le_iff_position32.mpr ⟨⟨hx, hy⟩, not_lt.mp hle⟩)

theorem le_of_not_lt64 {x y : Float} (hx : x.isNaN = false) (hy : y.isNaN = false)
    (h : ¬x < y) : y ≤ x := by
  refine le_iff_position64.mpr ⟨⟨hy, hx⟩, ?_⟩
  by_contra hlt
  exact h (lt_iff_position64.mpr ⟨⟨hx, hy⟩, not_le.mp hlt⟩)

/-! ## Squares that overflow -/

/-- The least binary64 value whose square is infinite, `2 ^ 512`. -/
def squareOverflow64 : Float := nearest64 .positive 1 512

/-- The binary64 value before it. -/
def beforeSquareOverflow64 : Float := .ofBits 0x5fefffffffffffff

theorem le_beforeSquareOverflow64 {x : Float} (h : x < squareOverflow64) :
    x ≤ beforeSquareOverflow64 := by
  obtain ⟨⟨hnan, -⟩, hlt⟩ := lt_iff_position64.mp h
  have hlimit : position64 squareOverflow64 = 0x5ff0000000000000 := by decide +kernel
  have hbefore : position64 beforeSquareOverflow64 = 0x5fefffffffffffff := by decide +kernel
  exact le_iff_position64.mpr ⟨⟨hnan, by decide +kernel⟩, by omega⟩

/-- **Which squares overflow.** The two neighbours decide it for all values, as squaring is
monotone. -/
theorem square_lt_infinity64_iff {x : Float} (hx : 0 < x) :
    x * x < infinity64 ↔ x < squareOverflow64 := by
  constructor
  · intro hsquare
    by_contra hlt
    obtain ⟨⟨-, hnan⟩, -⟩ := lt_iff_position64.mp hx
    have hle : squareOverflow64 ≤ x := le_of_not_lt64 hnan (by decide +kernel) hlt
    have hover := square_le_square64 (by decide +kernel) hle
    rw [show squareOverflow64 * squareOverflow64 = infinity64 by decide +kernel] at hover
    obtain ⟨-, hself⟩ := lt_iff_position64.mp (lt_of_le_of_lt64 hover hsquare)
    exact absurd hself (Int.lt_irrefl _)
  · intro hlt
    exact lt_of_le_of_lt64 (square_le_square64 hx (le_beforeSquareOverflow64 hlt))
      (by decide +kernel)

/-! ## One -/

theorem value32_one : value32 1 = 1 := by
  have hone : unpack32 1 = .finite .positive 8388608 (-23) (by decide) := rfl
  rw [value32, hone]
  norm_num [value, Sign.apply]

theorem value32_neg_one : value32 (-1) = -1 := by
  have hone : unpack32 (-1) = .finite .negative 8388608 (-23) (by decide) := rfl
  rw [value32, hone]
  norm_num [value, Sign.apply]

theorem position32_one : position32 1 = 0x3f800000 := by decide +kernel

theorem position32_neg_one : position32 (-1) = -0x3f800000 := by decide +kernel

/-! ## Bit patterns -/

/-- The bit pattern of a finite value without a sign is its position. -/
theorem position32_ofBits {b : UInt32} (h : b.toNat < topRank Format.binary32) :
    (Float32.ofBits b).isFinite = true ∧ position32 (Float32.ofBits b) = b.toNat := by
  have hstored : unpack32 (Float32.ofBits b) = unpack Format.binary32 b.toBitVec :=
    settle_of_fits (by decide) (fits_unpack _)
  have hpattern : b.toBitVec.toNat < topRank Format.binary32 := h
  unfold position32
  rw [show (Float32.ofBits b).isFinite = (unpack32 (Float32.ofBits b)).isFinite from rfl, hstored]
  exact position_unpack hpattern

end FeatureMatching.Numeric
