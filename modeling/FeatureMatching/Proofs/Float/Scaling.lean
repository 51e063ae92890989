import Mathlib
import FeatureMatching.Proofs.Float.Specials
import FeatureMatching.Proofs.Float.Widening

/-!
# Powers of two and rounding

A binary format looks the same in every binade, so rounding commutes with the multiplication by a
power of two as long as the number stays where the format has all its digits. Below the least normal
number it has not, but there only a number that is no multiple of the least subnormal loses
anything. `Resolved` is the union of the two cases, and `roundValue_scale` says that between
resolved numbers rounding is homogeneous. So sums, products and quotients of numbers that are
`ScaledBy` powers of two are scaled by powers of two themselves.

What remains is to tell whether a number is resolved. Products and sums of multiples of powers of
two are such multiples, and rounding keeps them (`IsMultiple.roundValue`), as it keeps a bound that
is a power of two (`abs_roundValue_le`). With both at hand (`Within`), the two ends of the range of
a computation can be read off its operands.
-/

set_option autoImplicit false

namespace FeatureMatching.Numeric

open Float.Model (Format UnpackedFloat)
open Float.Model.UnpackedFloat

/-! ## Rounded values -/

section RoundValue

variable {F : Format} {x y : ℚ}

/-- The value of the grid nearest to a number that is not negative, without a bound on the
exponent. -/
def gridValue (F : Format) (x : ℚ) : ℚ := gridMantissa F x * 2 ^ quantum F x

/-- The value of the grid nearest to a number. -/
def roundValue (F : Format) (x : ℚ) : ℚ := if 0 ≤ x then gridValue F x else -gridValue F (-x)

@[simp] theorem gridValue_zero (F : Format) : gridValue F 0 = 0 := by
  have hmantissa : gridMantissa F 0 = 0 := by
    unfold gridMantissa
    rw [zero_div]
    exact_mod_cast nearestEven_natCast 0
  simp [gridValue, hmantissa]

theorem roundValue_of_nonneg (h : 0 ≤ x) : roundValue F x = gridValue F x := if_pos h

theorem roundValue_neg (F : Format) (x : ℚ) : roundValue F (-x) = -roundValue F x := by
  unfold roundValue
  rcases lt_trichotomy x 0 with h | rfl | h
  · rw [if_pos (by linarith), if_neg (by linarith), neg_neg]
  · simp
  · rw [if_neg (by linarith), if_pos h.le, neg_neg]

theorem exists_sign_mul (x : ℚ) : ∃ (s : Sign) (z : ℚ), 0 ≤ z ∧ x = (s.apply 1 : Int) * z := by
  rcases le_total 0 x with hx | hx
  · exact ⟨.positive, x, hx, by simp [Sign.apply]⟩
  · exact ⟨.negative, -x, neg_nonneg.mpr hx, by simp [Sign.apply]⟩

theorem roundValue_sign_mul (s : Sign) (hx : 0 ≤ x) :
    roundValue F ((s.apply 1 : Int) * x) = (s.apply 1 : Int) * gridValue F x := by
  cases s with
  | positive => simpa [Sign.apply] using roundValue_of_nonneg hx
  | negative =>
    simp only [Sign.apply, Int.cast_neg, Int.cast_one, neg_one_mul]
    rw [roundValue_neg, roundValue_of_nonneg hx]

/-! ### Multiples of a power of two -/

/-- An integer multiple of `2 ^ e`. -/
def IsMultiple (e : Int) (x : ℚ) : Prop := ∃ n : Int, x = n * 2 ^ e

namespace IsMultiple

variable {d e : Int}

theorem mono (h : IsMultiple e x) (hle : d ≤ e) : IsMultiple d x := by
  obtain ⟨n, rfl⟩ := h
  refine ⟨n * 2 ^ (e - d).toNat, ?_⟩
  have hshift : ((e - d).toNat : Int) = e - d := Int.toNat_of_nonneg (by omega)
  push_cast
  rw [← zpow_natCast, hshift, mul_assoc, ← zpow_add₀ two_ne_zero, Int.sub_add_cancel]

theorem neg (h : IsMultiple e x) : IsMultiple e (-x) := by
  obtain ⟨n, rfl⟩ := h
  exact ⟨-n, by push_cast; ring⟩

theorem add (h : IsMultiple e x) (h' : IsMultiple e y) : IsMultiple e (x + y) := by
  obtain ⟨m, rfl⟩ := h
  obtain ⟨n, rfl⟩ := h'
  exact ⟨m + n, by push_cast; ring⟩

theorem mul (h : IsMultiple d x) (h' : IsMultiple e y) : IsMultiple (d + e) (x * y) := by
  obtain ⟨m, rfl⟩ := h
  obtain ⟨n, rfl⟩ := h'
  refine ⟨m * n, ?_⟩
  rw [zpow_add₀ two_ne_zero]
  push_cast
  ring

/-- In units that are not above the power, the number is an integer. -/
theorem div_zpow (h : IsMultiple e x) (hx : 0 ≤ x) (hle : d ≤ e) :
    ∃ m : Nat, x / 2 ^ d = m := by
  have hpow : (0 : ℚ) < 2 ^ d := zpow_pos two_pos d
  obtain ⟨n, hn⟩ := h.mono hle
  have hquotient : x / 2 ^ d = n := by
    rw [hn, mul_div_cancel_right₀ _ hpow.ne']
  have hnonneg : 0 ≤ n := by
    have : (0 : ℚ) ≤ n := hquotient ▸ div_nonneg hx hpow.le
    exact_mod_cast this
  obtain ⟨m, rfl⟩ := Int.eq_ofNat_of_zero_le hnonneg
  exact ⟨m, by simpa using hquotient⟩

end IsMultiple

theorem isMultiple_two_zpow (e : Int) : IsMultiple e (2 ^ e) := ⟨1, by simp⟩

/-- A number with no digit below the last place is its own rounding. -/
theorem gridValue_of_isMultiple {e : Int} (hx : 0 ≤ x) (h : IsMultiple e x)
    (hle : quantum F x ≤ e) : gridValue F x = x := by
  obtain ⟨m, hm⟩ := h.div_zpow hx hle
  unfold gridValue gridMantissa
  rw [hm, nearestEven_natCast, ← hm, div_mul_cancel₀ _ (zpow_pos two_pos _).ne']

theorem isMultiple_gridValue {e : Int} (hx : 0 ≤ x) (h : IsMultiple e x) :
    IsMultiple e (gridValue F x) := by
  rcases le_or_gt (quantum F x) e with hle | hlt
  · rw [gridValue_of_isMultiple hx h hle]
    exact h
  · have hplace : IsMultiple (quantum F x) (gridValue F x) := ⟨gridMantissa F x, rfl⟩
    exact hplace.mono hlt.le

/-- **Rounding keeps the digits that are not there.** -/
theorem IsMultiple.roundValue {e : Int} (h : IsMultiple e x) : IsMultiple e (roundValue F x) := by
  rcases le_total 0 x with hx | hx
  · rw [roundValue_of_nonneg hx]
    exact isMultiple_gridValue hx h
  · rw [← neg_neg x, roundValue_neg, roundValue_of_nonneg (neg_nonneg.mpr hx)]
    exact (isMultiple_gridValue (neg_nonneg.mpr hx) h.neg).neg

/-! ### Bounds -/

theorem quantum_two_zpow (F : Format) (e : Int) :
    quantum F (2 ^ e) = max (e - F.mantissaBitsWithoutImplicit) F.minExponent := by
  have hlog : Int.log 2 ((2 : ℚ) ^ e) = e := by exact_mod_cast Int.log_zpow (R := ℚ) one_lt_two e
  unfold quantum
  rw [hlog]

theorem gridValue_le {e : Int} (hx : 0 ≤ x) (h : x ≤ 2 ^ e) (he : F.minExponent ≤ e) :
    gridValue F x ≤ 2 ^ e := by
  rcases hx.eq_or_lt with rfl | hpos
  · rw [gridValue_zero]
    exact (zpow_pos two_pos e).le
  · have hpow : (0 : ℚ) < 2 ^ quantum F x := zpow_pos two_pos _
    have hquantum : quantum F x ≤ e := by
      have hmono := quantum_mono (F := F) hpos h
      rw [quantum_two_zpow] at hmono
      omega
    -- The bound is an integer in units of the last place, so the nearest integer respects it.
    obtain ⟨m, hm⟩ := (isMultiple_two_zpow e).div_zpow (zpow_pos two_pos e).le hquantum
    have hmantissa : gridMantissa F x ≤ m := by
      rw [← nearestEven_natCast m, ← hm]
      exact nearestEven_mono (div_le_div_of_nonneg_right h hpow.le)
    rw [gridValue, ← le_div_iff₀ hpow, hm]
    exact_mod_cast hmantissa

/-- **Rounding keeps a bound that is a power of two.** -/
theorem abs_roundValue_le {e : Int} (h : |x| ≤ 2 ^ e) (he : F.minExponent ≤ e) :
    |roundValue F x| ≤ 2 ^ e := by
  have hgrid {z : ℚ} (hz : 0 ≤ z) (hle : z ≤ 2 ^ e) : |gridValue F z| ≤ 2 ^ e := by
    rw [abs_of_nonneg (mul_nonneg (Nat.cast_nonneg _) (zpow_pos two_pos _).le)]
    exact gridValue_le hz hle he
  rcases le_total 0 x with hx | hx
  · rw [roundValue_of_nonneg hx]
    exact hgrid hx (abs_of_nonneg hx ▸ h)
  · rw [← neg_neg x, roundValue_neg, roundValue_of_nonneg (neg_nonneg.mpr hx), abs_neg]
    exact hgrid (neg_nonneg.mpr hx) (abs_of_nonpos hx ▸ h)

theorem quantum_le_of_lt {e : Int} (hx : 0 < x)
    (h : x < 2 ^ (e + F.mantissaBitsWithoutImplicit + 1)) (he : F.minExponent ≤ e) :
    quantum F x ≤ e := by
  have hlog := (Int.lt_zpow_iff_log_lt (b := 2) (by norm_num) hx).mp (by exact_mod_cast h)
  unfold quantum
  omega

/-- A multiple of a power of two that needs no more digits than a mantissa has is a value of the
grid. -/
theorem roundValue_of_lt {e : Int} (hx : 0 ≤ x) (hmultiple : IsMultiple e x)
    (h : x < 2 ^ (e + F.mantissaBitsWithoutImplicit + 1)) (he : F.minExponent ≤ e) :
    roundValue F x = x := by
  rw [roundValue_of_nonneg hx]
  rcases hx.eq_or_lt with rfl | hpos
  · exact gridValue_zero F
  · exact gridValue_of_isMultiple hx hmultiple (quantum_le_of_lt hpos h he)

/-! ### Scaling -/

/-- A number that a format resolves as finely as any larger one: it is normal, or it is a multiple
of the least subnormal. -/
def Resolved (F : Format) (x : ℚ) : Prop :=
  2 ^ (F.minExponent + F.mantissaBitsWithoutImplicit) ≤ |x| ∨ IsMultiple F.minExponent x

theorem gridValue_scale_of_normal
    (h : 2 ^ (F.minExponent + F.mantissaBitsWithoutImplicit) ≤ x) (k : Nat) :
    gridValue F (2 ^ k * x) = 2 ^ k * gridValue F x := by
  have hx : 0 < x := lt_of_lt_of_le (zpow_pos two_pos _) h
  have hpow (e : Int) : (2 : ℚ) ^ (e + k) = 2 ^ k * 2 ^ e := by
    rw [zpow_add₀ two_ne_zero, zpow_natCast, mul_comm]
  have hlow : binade F * 2 ^ quantum F x ≤ x := by
    by_cases hleast : quantum F x = F.minExponent
    · rw [hleast, binade_mul_zpow]
      exact h
    · exact binade_mul_zpow_quantum_le hx hleast
  have hquantum : quantum F (2 ^ k * x) = quantum F x + k := by
    have hleast := minExponent_le_quantum F x
    refine quantum_eq (by positivity) (by omega) ?_ (.inl ?_) <;> rw [hpow, mul_left_comm]
    · exact mul_lt_mul_of_pos_left (lt_two_binade_mul_zpow_quantum F x) (by positivity)
    · exact mul_le_mul_of_nonneg_left hlow (by positivity)
  unfold gridValue gridMantissa
  rw [hquantum, hpow, mul_div_mul_left _ _ (by positivity), mul_left_comm]

theorem gridValue_scale_of_small (hx : 0 < x)
    (h : x ≤ 2 ^ (F.minExponent + F.mantissaBitsWithoutImplicit))
    (hmultiple : IsMultiple F.minExponent x) (k : Nat) : gridValue F (2 ^ k * x) = 2 ^ k * x := by
  have hpow (e : Int) : (2 : ℚ) ^ (k + e) = 2 ^ k * 2 ^ e := by
    rw [zpow_add₀ two_ne_zero, zpow_natCast]
  refine gridValue_of_isMultiple (e := k + F.minExponent) (by positivity) ?_ ?_
  · exact IsMultiple.mul ⟨1, by simp⟩ hmultiple
  · have hmono := quantum_mono (F := F) (x := 2 ^ k * x)
      (y := 2 ^ (k + (F.minExponent + F.mantissaBitsWithoutImplicit))) (by positivity)
      (by rw [hpow]; exact mul_le_mul_of_nonneg_left h (by positivity))
    rw [quantum_two_zpow] at hmono
    omega

theorem gridValue_scale (hx : 0 ≤ x) (h : Resolved F x) (k : Nat) :
    gridValue F (2 ^ k * x) = 2 ^ k * gridValue F x := by
  rcases hx.eq_or_lt with rfl | hpos
  · simp
  · rcases le_or_gt (2 ^ (F.minExponent + F.mantissaBitsWithoutImplicit)) x with hnormal | hsmall
    · exact gridValue_scale_of_normal hnormal k
    · have hmultiple := h.resolve_left (by rw [abs_of_pos hpos]; exact not_le.mpr hsmall)
      have hself := gridValue_scale_of_small hpos hsmall.le hmultiple 0
      rw [pow_zero, one_mul] at hself
      rw [gridValue_scale_of_small hpos hsmall.le hmultiple k, hself]

theorem Resolved.neg (h : Resolved F x) : Resolved F (-x) := by
  unfold Resolved
  rw [abs_neg]
  exact h.imp_right IsMultiple.neg

theorem roundValue_scale_nat (h : Resolved F x) (k : Nat) :
    roundValue F (2 ^ k * x) = 2 ^ k * roundValue F x := by
  have hnonneg {z : ℚ} (hz : 0 ≤ z) (hresolved : Resolved F z) :
      roundValue F (2 ^ k * z) = 2 ^ k * roundValue F z := by
    rw [roundValue_of_nonneg hz, roundValue_of_nonneg (mul_nonneg (by positivity) hz)]
    exact gridValue_scale hz hresolved k
  rcases le_total 0 x with hx | hx
  · exact hnonneg hx h
  · have hneg := hnonneg (neg_nonneg.mpr hx) h.neg
    rwa [mul_neg, roundValue_neg, roundValue_neg, mul_neg, neg_inj] at hneg

/-- **Rounding is homogeneous** between two numbers that are resolved. -/
theorem roundValue_scale (k : Int) (h : Resolved F x) (h' : Resolved F (2 ^ k * x)) :
    roundValue F (2 ^ k * x) = 2 ^ k * roundValue F x := by
  rcases Int.eq_nat_or_neg k with ⟨n, rfl | rfl⟩
  · rw [zpow_natCast]
    exact roundValue_scale_nat h n
  · -- Scaling down undoes scaling up.
    have hback : x = 2 ^ n * (2 ^ (-(n : Int)) * x) := by
      rw [zpow_neg, zpow_natCast, ← mul_assoc, mul_inv_cancel₀ (by positivity), one_mul]
    have hup := roundValue_scale_nat h' n
    rw [← hback] at hup
    rw [hup, zpow_neg, zpow_natCast, ← mul_assoc, inv_mul_cancel₀ (by positivity), one_mul]

end RoundValue

/-! ## Results of operations -/

section Results

variable {F : Format} {u : UnpackedFloat} {x : ℚ}

/-- The rounded value as the pair that the format stores: a mantissa that reached the next binade is
written with the exponent of that one. -/
theorem exists_canonical_gridValue (hx : 0 < x) :
    ∃ m e, Canonical F m e ∧ gridRank F x = rank F m e ∧ gridValue F x = m * 2 ^ e := by
  have hleast := minExponent_le_quantum F x
  have hbinade := binade_pos F
  rw [gridRank, if_pos hx]
  rcases (gridMantissa_le F x).lt_or_eq with hlt | heq
  · refine ⟨gridMantissa F x, quantum F x, ⟨hlt, hleast, ?_⟩, rfl, rfl⟩
    by_cases hquantum : quantum F x = F.minExponent
    · exact .inr hquantum
    · exact .inl (binade_le_gridMantissa hx hquantum)
  · refine ⟨binade F, quantum F x + 1, ⟨by omega, by omega, .inl (Nat.le_refl _)⟩, ?_, ?_⟩
    · have hsucc : (quantum F x + 1 - F.minExponent).toNat =
          (quantum F x - F.minExponent).toNat + 1 := by omega
      unfold rank
      rw [heq, hsucc]
      ring
    · rw [gridValue, heq, zpow_add_one₀ two_ne_zero]
      push_cast
      ring

/-- The float of a rounded value that is not too large. -/
theorem exists_fits_gridValue (s : Sign) (hx : 0 ≤ x) (h : gridRank F x < topRank F) :
    ∃ w, Fits F w ∧ w.isFinite = true ∧ position F w = s.apply (gridRank F x) ∧
      value w = (s.apply 1 : Int) * gridValue F x := by
  rcases hx.eq_or_lt with rfl | hpos
  · refine ⟨.zero s, trivial, rfl, ?_, ?_⟩
    · cases s <;> simp [position, gridRank, Sign.apply]
    · rw [gridValue_zero, mul_zero]
      rfl
  · obtain ⟨m, e, hcanonical, hrank, hvalue⟩ := exists_canonical_gridValue (F := F) hpos
    rw [hrank] at h
    rw [hrank, hvalue]
    rcases Nat.eq_zero_or_pos m with rfl | hm
    · -- A number below half of the least subnormal is rounded to zero.
      have hexponent : e = F.minExponent :=
        hcanonical.full.resolve_left (Nat.not_le.mpr (binade_pos F))
      refine ⟨.zero s, trivial, rfl, ?_, ?_⟩
      · cases s <;> simp [position, rank, hexponent, Sign.apply]
      · rw [Nat.cast_zero, zero_mul, mul_zero]
        rfl
    · exact ⟨.finite s m e hm, ⟨hcanonical, h⟩, rfl, rfl, value_finite s e hm⟩

/-- **A finite result is the rounded value.** -/
theorem StoredAt.value_eq (h : StoredAt F u (roundPosition F x)) (hfinite : u.isFinite = true) :
    value u = roundValue F x := by
  obtain ⟨s, z, hz, rfl⟩ := exists_sign_mul x
  rw [← apply_roundRank s hz] at h
  have hbelow : gridRank F z < topRank F := by
    have hhigh := position_lt_topRank h.fits hfinite
    have hlow := neg_topRank_lt_position h.fits hfinite
    rw [h.position_eq, roundRank] at hhigh hlow
    cases s <;> simp only [Sign.apply] at hhigh hlow <;> omega
  obtain ⟨w, hw, hfw, hposition, hvalue⟩ := exists_fits_gridValue s hz hbelow
  rw [roundValue_sign_mul s hz, ← hvalue]
  refine value_eq_of_position_eq h.fits hw hfinite hfw ?_
  rw [h.position_eq, hposition, roundRank, Nat.min_eq_left hbelow.le]

/-- A result that is not above a power of two below infinity is finite. -/
theorem StoredAt.isFinite_of_abs_le {e : Int} (h : StoredAt F u (roundPosition F x))
    (hx : |x| ≤ 2 ^ e) (he : gridRank F (2 ^ e) < topRank F) : u.isFinite = true := by
  obtain ⟨hlow, hhigh⟩ := abs_le.mp hx
  have htop : roundPosition F (2 ^ e) < topRank F := by
    rw [roundPosition_of_nonneg (zpow_pos two_pos e).le, roundRank]
    omega
  have hmono := roundPosition_mono (F := F) hhigh
  have hmono' := roundPosition_mono (F := F) hlow
  rw [roundPosition_neg] at hmono'
  refine isFinite_of_position_lt (F := F) h.isNaN_eq ?_ ?_ <;> rw [h.position_eq] <;> omega

/-- The powers of two below infinity. -/
theorem gridRank_two_zpow_lt {e : Int}
    (hleast : F.minExponent ≤ e - F.mantissaBitsWithoutImplicit)
    (h : rank F (binade F) (e - F.mantissaBitsWithoutImplicit) < topRank F) :
    gridRank F (2 ^ e) < topRank F := by
  have hbinade := binade_pos F
  have hcanonical : Canonical F (binade F) (e - F.mantissaBitsWithoutImplicit) :=
    ⟨by omega, hleast, .inl le_rfl⟩
  have hvalue : (2 : ℚ) ^ e = binade F * 2 ^ (e - F.mantissaBitsWithoutImplicit) := by
    rw [binade_mul_zpow, sub_add_cancel]
  rwa [hvalue, gridRank_canonical hbinade hcanonical]

theorem isMultiple_value (hu : Fits F u) : IsMultiple F.minExponent (value u) := by
  cases u with
  | notANumber | infinity s | zero s => exact ⟨0, by simp [value]⟩
  | finite s m e hm =>
    have hplace : IsMultiple e (value (.finite s m e hm)) := ⟨s.apply m, rfl⟩
    exact hplace.mono hu.1.least

theorem abs_value_finite (s : Sign) {m : Nat} (e : Int) (hm : 0 < m) :
    |value (.finite s m e hm)| = m * 2 ^ e := by
  have hvalue : (0 : ℚ) ≤ m * 2 ^ e := mul_nonneg (Nat.cast_nonneg m) (zpow_pos two_pos e).le
  rw [value_finite]
  cases s <;> simp only [Sign.apply, Int.cast_neg, Int.cast_one, neg_one_mul, one_mul, abs_neg] <;>
    exact abs_of_nonneg hvalue

/-- The larger a float is, the fewer digits it has below a given place. -/
theorem isMultiple_value_of_le {b : Int} (hu : Fits F u) (h : value u = 0 ∨ 2 ^ b ≤ |value u|) :
    IsMultiple (b - F.mantissaBitsWithoutImplicit) (value u) := by
  rcases h with h | h
  · exact ⟨0, by rw [h]; simp⟩
  · cases u with
    | notANumber | infinity s | zero s => exact ⟨0, by simp [value]⟩
    | finite s m e hm =>
      have hplace : IsMultiple e (value (.finite s m e hm)) := ⟨s.apply m, rfl⟩
      refine hplace.mono ?_
      have hlt : (2 : ℚ) ^ b < 2 ^ (e + F.mantissaBitsWithoutImplicit + 1) := by
        rw [abs_value_finite] at h
        refine lt_of_le_of_lt h ?_
        rw [zpow_add_one₀ two_ne_zero, ← binade_mul_zpow, mul_comm _ (2 : ℚ), ← mul_assoc]
        exact mul_lt_mul_of_pos_right (by exact_mod_cast hu.1.mantissa_lt) (zpow_pos two_pos e)
      have := (zpow_lt_zpow_iff_right₀ (one_lt_two (α := ℚ))).mp hlt
      omega

end Results

/-! ## Binary32 -/

theorem isFinite_of_storedAt32 {u : UnpackedFloat} {x : ℚ} {e : Int}
    (h : StoredAt .binary32 u (roundPosition .binary32 x)) (hx : |x| ≤ 2 ^ e) (he : e ≤ 127) :
    u.isFinite = true :=
  h.isFinite_of_abs_le (e := 127) (hx.trans (zpow_le_zpow_right₀ one_le_two he))
    (gridRank_two_zpow_lt (by decide) (by decide))

theorem value32_of_position {x : ℚ} {y : Float32} (hfinite : y.isFinite = true)
    (h : y.isNaN = false ∧ position32 y = roundPosition .binary32 x) :
    value32 y = roundValue .binary32 x :=
  StoredAt.value_eq ⟨h.1, fits_unpack32 y, h.2⟩ hfinite

section Binary32

variable {x y : Float32}

theorem isFinite_of_add32 (h : (x + y).isFinite = true) :
    x.isFinite = true ∧ y.isFinite = true :=
  isFinite_of_add (isFinite_of_settle (F := .binary32) h)

theorem isFinite_of_mul32 (h : (x * y).isFinite = true) :
    x.isFinite = true ∧ y.isFinite = true :=
  isFinite_of_mul (isFinite_of_settle (F := .binary32) h)

theorem position32_add (hx : x.isFinite = true) (hy : y.isFinite = true) :
    (x + y).isNaN = false ∧
      position32 (x + y) = roundPosition .binary32 (value32 x + value32 y) := by
  have h := storedAt_add (F := .binary32) (by decide) (fits_unpack32 x) (fits_unpack32 y) hx hy
  exact ⟨h.isNaN_eq, h.position_eq⟩

theorem value32_add (h : (x + y).isFinite = true) :
    value32 (x + y) = roundValue .binary32 (value32 x + value32 y) := by
  obtain ⟨hx, hy⟩ := isFinite_of_add32 h
  exact value32_of_position h (position32_add hx hy)

theorem value32_mul (h : (x * y).isFinite = true) :
    value32 (x * y) = roundValue .binary32 (value32 x * value32 y) := by
  obtain ⟨hx, hy⟩ := isFinite_of_mul32 h
  exact value32_of_position h (position32_mul hx hy)

theorem roundValue_value32 (hx : x.isFinite = true) :
    roundValue .binary32 (value32 x) = value32 x :=
  (value32_of_position hx ⟨isNaN_of_isFinite hx, (roundPosition_value32 hx).symm⟩).symm

end Binary32

/-! ## Binary64 -/

section Binary64

variable {x y : Float}

theorem value64_add (h : (x + y).isFinite = true) :
    value64 (x + y) = roundValue .binary64 (value64 x + value64 y) := by
  obtain ⟨hx, hy⟩ := isFinite_of_add64 h
  exact (storedAt_add (by decide) (fits_unpack64 x) (fits_unpack64 y) hx hy).value_eq h

theorem value64_mul (h : (x * y).isFinite = true) :
    value64 (x * y) = roundValue .binary64 (value64 x * value64 y) := by
  obtain ⟨hx, hy⟩ := isFinite_of_mul64 h
  exact (storedAt_mul (by decide) (fits_unpack64 x) (fits_unpack64 y) hx hy).value_eq h

theorem position64_div (hx : x.isFinite = true) (hy : y.isFinite = true) (hne : value64 y ≠ 0) :
    (x / y).isNaN = false ∧
      position64 (x / y) = roundPosition .binary64 (value64 x / value64 y) := by
  have h := storedAt_div (F := .binary64) (by decide) (u := unpack64 x) hx hy hne
  exact ⟨h.isNaN_eq, h.position_eq⟩

theorem beq_zero_iff (hx : x.isFinite = true) : (x == 0) = true ↔ value64 x = 0 := by
  have hzero : position64 0 = 0 := rfl
  rw [beq_iff_position64, hzero]
  constructor
  · rintro ⟨-, hposition⟩
    exact value_eq_zero_of_position_eq_zero (F := .binary64) (u := unpack64 x) hx hposition
  · intro hvalue
    refine ⟨⟨isNaN_of_isFinite64 hx, rfl⟩, ?_⟩
    have hposition := roundPosition_value (F := .binary64) (fits_unpack64 x) hx
    rw [show value (unpack64 x) = 0 from hvalue, roundPosition_zero] at hposition
    exact hposition.symm

theorem isMultiple_value64 (x : Float) : IsMultiple (-1074) (value64 x) :=
  isMultiple_value (F := .binary64) (fits_unpack64 x)

theorem value64_zero : value64 0 = 0 := rfl

theorem value64_one : value64 1 = 1 := by
  have hone : unpack64 1 = .finite .positive 4503599627370496 (-52) (by decide) := rfl
  rw [value64, hone]
  norm_num [value, Sign.apply]

theorem isFinite_of_storedAt64 {u : UnpackedFloat} {z : ℚ} {e : Int}
    (h : StoredAt .binary64 u (roundPosition .binary64 z)) (hz : |z| ≤ 2 ^ e) (he : e ≤ 1023) :
    u.isFinite = true :=
  h.isFinite_of_abs_le (e := 1023) (hz.trans (zpow_le_zpow_right₀ one_le_two he))
    (gridRank_two_zpow_lt (by decide) (by decide))

/-- The powers of two that binary64 has, with a sign. -/
theorem value64_nearest64 (s : Sign) {k : Int} (hlow : -1074 ≤ k) (hhigh : k ≤ 1023) :
    (nearest64 s 1 k).isFinite = true ∧ value64 (nearest64 s 1 k) = (s.apply 1 : Int) * 2 ^ k := by
  have hpow : (0 : ℚ) < 2 ^ k := zpow_pos two_pos k
  have hstored := storedAt_round (F := .binary64) (by decide) (s := s) 1 k
  rw [Nat.cast_one, one_mul] at hstored
  have hsize : |((s.apply 1 : Int) : ℚ) * 2 ^ k| ≤ 2 ^ k := by
    cases s <;> simp [Sign.apply, abs_of_pos hpow]
  have hfinite := isFinite_of_storedAt64 hstored hsize hhigh
  have hgrid : gridValue .binary64 (2 ^ k) = 2 ^ k := by
    refine gridValue_of_isMultiple hpow.le (isMultiple_two_zpow k) ?_
    rw [quantum_two_zpow]
    exact max_le (by simp) hlow
  refine ⟨hfinite, ?_⟩
  rw [← hgrid, ← roundValue_sign_mul s hpow.le]
  exact hstored.value_eq hfinite

/-! ### Numbers that differ by a power of two -/

/-- The second number is `2 ^ k` times the first one, exactly, if both are finite. -/
def ScaledBy (k : Int) (x y : Float) : Prop :=
  x.isFinite = true → y.isFinite = true → value64 y = 2 ^ k * value64 x

namespace ScaledBy

variable {j k : Int} {x' y' : Float}

theorem refl (x : Float) : ScaledBy 0 x x := by
  intro _ _
  rw [zpow_zero, one_mul]

/-- **A sum scales with its terms.** Terms that cancel leave a multiple of the least subnormal, and
so a result that is exact. -/
theorem add (hx : ScaledBy k x x') (hy : ScaledBy k y y') : ScaledBy k (x + y) (x' + y') := by
  intro h h'
  obtain ⟨hfx, hfy⟩ := isFinite_of_add64 h
  obtain ⟨hfx', hfy'⟩ := isFinite_of_add64 h'
  have hresolved (a b : Float) : Resolved .binary64 (value64 a + value64 b) :=
    .inr ((isMultiple_value64 a).add (isMultiple_value64 b))
  have hsum : value64 x' + value64 y' = 2 ^ k * (value64 x + value64 y) := by
    rw [hx hfx hfx', hy hfy hfy', mul_add]
  rw [value64_add h, value64_add h', hsum]
  exact roundValue_scale k (hresolved x y) (hsum ▸ hresolved x' y')

/-- **A product scales with its factors** unless one of the two loses digits. -/
theorem mul (hx : ScaledBy j x x') (hy : ScaledBy k y y')
    (hresolved : Resolved .binary64 (value64 x * value64 y))
    (hresolved' : Resolved .binary64 (value64 x' * value64 y')) :
    ScaledBy (j + k) (x * y) (x' * y') := by
  intro h h'
  obtain ⟨hfx, hfy⟩ := isFinite_of_mul64 h
  obtain ⟨hfx', hfy'⟩ := isFinite_of_mul64 h'
  have hproduct : value64 x' * value64 y' = 2 ^ (j + k) * (value64 x * value64 y) := by
    rw [hx hfx hfx', hy hfy hfy', zpow_add₀ two_ne_zero]
    ring
  rw [value64_mul h, value64_mul h', hproduct]
  exact roundValue_scale _ hresolved (hproduct ▸ hresolved')

theorem beq_zero (h : ScaledBy k x x') (hx : x.isFinite = true) (hx' : x'.isFinite = true) :
    (x == 0) = (x' == 0) := by
  rw [Bool.eq_iff_iff, beq_zero_iff hx, beq_zero_iff hx', h hx hx']
  simp [(zpow_pos (two_pos (α := ℚ)) k).ne']

/-- **A quotient of numbers that are scaled alike does not change.** -/
theorem position_div (h : ScaledBy k x x') (h' : ScaledBy k y y') (hx : x.isFinite = true)
    (hx' : x'.isFinite = true) (hy : y.isFinite = true) (hy' : y'.isFinite = true)
    (hne : value64 y ≠ 0) :
    (x / y).isNaN = false ∧ (x' / y').isNaN = false ∧
      position64 (x / y) = position64 (x' / y') := by
  have hpow : (2 : ℚ) ^ k ≠ 0 := (zpow_pos two_pos k).ne'
  have hne' : value64 y' ≠ 0 := by
    rw [h' hy hy']
    exact mul_ne_zero hpow hne
  obtain ⟨hnan, hposition⟩ := position64_div hx hy hne
  obtain ⟨hnan', hposition'⟩ := position64_div hx' hy' hne'
  refine ⟨hnan, hnan', ?_⟩
  rw [hposition, hposition', h hx hx', h' hy hy', mul_div_mul_left _ _ hpow]

end ScaledBy

/-! ### Numbers between two powers of two -/

/-- A finite number that has no digit below one power of two and is not above another one. -/
structure Within (e b : Int) (x : Float) : Prop where
  isFinite : x.isFinite = true
  isMultiple : IsMultiple e (value64 x)
  abs_le : |value64 x| ≤ 2 ^ b

namespace Within

variable {d e b c : Int}

theorem mono (h : Within e b x) (hd : d ≤ e) (hb : b ≤ c) : Within d c x :=
  ⟨h.isFinite, h.isMultiple.mono hd, h.abs_le.trans (zpow_le_zpow_right₀ one_le_two hb)⟩

theorem add (hx : Within e b x) (hy : Within e b y) (hlow : -1074 ≤ b + 1) (hhigh : b + 1 ≤ 1023) :
    Within e (b + 1) (x + y) := by
  have hbound : |value64 x + value64 y| ≤ 2 ^ (b + 1) := by
    rw [zpow_add_one₀ two_ne_zero, mul_two]
    exact (abs_add_le _ _).trans (add_le_add hx.abs_le hy.abs_le)
  have hfinite : (x + y).isFinite = true :=
    isFinite_of_storedAt64 (storedAt_add (by decide) (fits_unpack64 x) (fits_unpack64 y) hx.isFinite
      hy.isFinite) hbound hhigh
  refine ⟨hfinite, ?_, ?_⟩ <;> rw [value64_add hfinite]
  · exact (hx.isMultiple.add hy.isMultiple).roundValue
  · exact abs_roundValue_le hbound hlow

theorem mul (hx : Within d b x) (hy : Within e c y) (hlow : -1074 ≤ b + c)
    (hhigh : b + c ≤ 1023) : Within (d + e) (b + c) (x * y) := by
  have hbound : |value64 x * value64 y| ≤ 2 ^ (b + c) := by
    rw [abs_mul, zpow_add₀ two_ne_zero]
    exact mul_le_mul hx.abs_le hy.abs_le (abs_nonneg _) (zpow_pos two_pos _).le
  have hfinite : (x * y).isFinite = true :=
    isFinite_of_storedAt64 (storedAt_mul (by decide) (fits_unpack64 x) (fits_unpack64 y) hx.isFinite
      hy.isFinite) hbound hhigh
  refine ⟨hfinite, ?_, ?_⟩ <;> rw [value64_mul hfinite]
  · exact (hx.isMultiple.mul hy.isMultiple).roundValue
  · exact abs_roundValue_le hbound hlow

/-- A finite number with a lower and an upper bound; zero needs no lower one. -/
theorem of_abs (hx : x.isFinite = true) (hlow : value64 x = 0 ∨ 2 ^ b ≤ |value64 x|)
    (hhigh : |value64 x| ≤ 2 ^ c) : Within (b - 52) c x :=
  ⟨hx, isMultiple_value_of_le (F := .binary64) (fits_unpack64 x) hlow, hhigh⟩

/-- The binary32 values, between their least subnormal and the end of their range. -/
theorem widen {x : Float32} (hx : x.isFinite = true) : Within (-149) 128 (widen x) := by
  have hfits := fits_unpack32 x
  refine ⟨(isFinite_widen x).trans hx, ?_, ?_⟩ <;> rw [value64_widen]
  · exact isMultiple_value (F := .binary32) hfits
  · unfold value32
    cases hu : unpack32 x with
    | notANumber | infinity s | zero s => simp [value]
    | finite s m e hm =>
      rw [hu] at hfits
      obtain ⟨hlt, hleast, hfull⟩ := hfits.1
      have hrank := hfits.2
      have hexponent : e ≤ 104 := by
        have hmin : Format.binary32.minExponent = -149 := rfl
        have hbinade : binade Format.binary32 = 2 ^ 23 := rfl
        have htop : topRank Format.binary32 = 255 * 2 ^ 23 := rfl
        rw [rank, hmin, hbinade, htop] at hrank
        rw [hmin, hbinade] at hfull
        omega
      have hmantissa : (m : ℚ) ≤ 2 ^ (24 : Int) := by
        exact_mod_cast Nat.le_of_lt hlt
      calc |value (.finite s m e hm)| = m * 2 ^ e := abs_value_finite s e hm
        _ ≤ 2 ^ (24 : Int) * 2 ^ (104 : Int) :=
          mul_le_mul hmantissa (zpow_le_zpow_right₀ one_le_two hexponent) (zpow_pos two_pos e).le
            (zpow_pos two_pos _).le
        _ = 2 ^ (128 : Int) := by rw [← zpow_add₀ two_ne_zero]; rfl

theorem resolved_mul (hx : Within d b x) (hy : Within e c y) (h : -1074 ≤ d + e) :
    Resolved .binary64 (value64 x * value64 y) :=
  .inr ((hx.isMultiple.mul hy.isMultiple).mono h)

end Within

end Binary64

end FeatureMatching.Numeric
