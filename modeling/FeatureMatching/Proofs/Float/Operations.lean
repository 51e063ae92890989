import Mathlib
import FeatureMatching.Proofs.Float.Rounding

/-!
# Operations on floats as exact operations, rounded

A finite float has a rational `value`. The position of a sum, a product, a quotient or a rounded
number is the `roundPosition` of the exact result, whatever the signs and whatever the size:
subnormal results and overflows are covered by the same equation. So an inequality between exact
results carries over to the floats, which is all that a comparison of them can see.
-/

set_option autoImplicit false

namespace FeatureMatching.Numeric

open Float.Model (Format UnpackedFloat totalExponent)
open Float.Model.UnpackedFloat

/-! ## The rounded position of a number -/

section RoundPosition

variable {F : Format} {x y : ℚ}

/-- The rank of the value nearest to a number; beyond the largest finite value that of infinity. -/
def roundRank (F : Format) (x : ℚ) : Nat := min (gridRank F x) (topRank F)

/-- The position of the value nearest to a number. -/
def roundPosition (F : Format) (x : ℚ) : Int :=
  if 0 ≤ x then roundRank F x else -roundRank F (-x)

theorem roundRank_mono (h : x ≤ y) : roundRank F x ≤ roundRank F y :=
  min_le_min_right _ (gridRank_mono h)

@[simp] theorem roundRank_zero (F : Format) : roundRank F 0 = 0 := by
  simp [roundRank, gridRank]

theorem roundPosition_of_nonneg (h : 0 ≤ x) : roundPosition F x = roundRank F x := if_pos h

@[simp] theorem roundPosition_zero (F : Format) : roundPosition F 0 = 0 := by
  simp [roundPosition]

theorem roundPosition_neg (F : Format) (x : ℚ) :
    roundPosition F (-x) = -roundPosition F x := by
  unfold roundPosition
  rcases lt_trichotomy x 0 with h | rfl | h
  · rw [if_pos (by linarith), if_neg (by linarith), neg_neg]
  · simp
  · rw [if_neg (by linarith), if_pos h.le, neg_neg]

theorem roundPosition_nonneg (h : 0 ≤ x) : 0 ≤ roundPosition F x := by
  rw [roundPosition_of_nonneg h]
  omega

theorem roundPosition_nonpos (h : x ≤ 0) : roundPosition F x ≤ 0 := by
  have := roundPosition_nonneg (F := F) (neg_nonneg.mpr h)
  rw [roundPosition_neg] at this
  omega

/-- **Rounding is monotone**, across zero and up to the infinities. -/
theorem roundPosition_mono (h : x ≤ y) : roundPosition F x ≤ roundPosition F y := by
  rcases le_or_gt 0 x with hx | hx
  · rw [roundPosition_of_nonneg hx, roundPosition_of_nonneg (le_trans hx h)]
    exact_mod_cast roundRank_mono h
  · rcases le_or_gt 0 y with hy | hy
    · exact le_trans (roundPosition_nonpos hx.le) (roundPosition_nonneg hy)
    · unfold roundPosition
      rw [if_neg (not_le.mpr hx), if_neg (not_le.mpr hy)]
      exact neg_le_neg (by exact_mod_cast roundRank_mono (neg_le_neg h))

end RoundPosition

/-! ## Finite values -/

/-- The rational number that a finite float stands for; 0 for the others. -/
def value : UnpackedFloat → ℚ
  | .finite sign mantissa exponent _ => (sign.apply mantissa : Int) * 2 ^ exponent
  | _ => 0

section Value

variable {F : Format} {u v : UnpackedFloat}

theorem isNaN_of_finite (hfinite : u.isFinite = true) : u.isNaN = false := by
  cases u with
  | notANumber | infinity s => cases hfinite
  | zero s | finite s m e hm => rfl

/-- A finite float stays where it is. -/
theorem roundPosition_value (hu : Fits F u) (hfinite : u.isFinite = true) :
    roundPosition F (value u) = position F u := by
  cases u with
  | notANumber | infinity s => cases hfinite
  | zero s => exact roundPosition_zero F
  | finite s m e hm =>
    have hpos : roundPosition F ((m : ℚ) * 2 ^ e) = rank F m e := by
      rw [roundPosition_of_nonneg (by positivity), roundRank, gridRank_canonical hm hu.1,
        Nat.min_eq_left (Nat.le_of_lt hu.2)]
    cases s with
    | positive => simpa [value, position, Sign.apply] using hpos
    | negative =>
      rw [show value (.finite .negative m e hm) = -((m : ℚ) * 2 ^ e) by
        simp [value, Sign.apply], roundPosition_neg, hpos]
      rfl

theorem position_ne_zero {s : Sign} {m : Nat} {e : Int} (hm : 0 < m) :
    position F (.finite s m e hm) ≠ 0 := by
  have hpos := rank_pos (F := F) (e := e) hm
  cases s <;> simp only [position, Sign.apply] <;> omega

/-- No two floats share a position, apart from the two zeros and the NaN. -/
theorem eq_of_position_eq (hu : Fits F u) (hv : Fits F v) (hnu : u.isNaN = false)
    (hnv : v.isNaN = false) (hne : position F v ≠ 0) (h : position F u = position F v) :
    u = v := by
  have htop := topRank_pos F
  cases u with
  | notANumber => cases hnu
  | zero s => exact absurd h.symm hne
  | infinity s =>
    cases v with
    | notANumber => cases hnv
    | zero s' => exact absurd rfl hne
    | infinity s' =>
      cases s <;> cases s' <;> simp only [position, Sign.apply] at h <;> first | rfl | omega
    | finite s' n e hn =>
      have hlt := hv.2
      cases s <;> cases s' <;> simp only [position, Sign.apply] at h <;> omega
  | finite s m d hm =>
    have hlt := hu.2
    cases v with
    | notANumber => cases hnv
    | zero s' => exact absurd rfl hne
    | infinity s' => cases s <;> cases s' <;> simp only [position, Sign.apply] at h <;> omega
    | finite s' n e hn =>
      have hpos := rank_pos (F := F) (e := d) hm
      have hsame : s = s' ∧ rank F m d = rank F n e := by
        cases s <;> cases s' <;> simp only [position, Sign.apply] at h
        · exact ⟨rfl, by omega⟩
        · omega
        · omega
        · exact ⟨rfl, by omega⟩
      obtain ⟨rfl, hrank⟩ := hsame
      obtain ⟨rfl, rfl⟩ := hu.1.rank_injective hv.1 hrank
      rfl

theorem value_eq_zero_of_position_eq_zero (hfinite : u.isFinite = true) (h : position F u = 0) :
    value u = 0 := by
  cases u with
  | notANumber | infinity s => cases hfinite
  | zero s => rfl
  | finite s m e hm => exact absurd h (position_ne_zero hm)

/-- No two values share a position; the two zeros are one value. -/
theorem value_eq_of_position_eq (hu : Fits F u) (hv : Fits F v) (hfu : u.isFinite = true)
    (hfv : v.isFinite = true) (h : position F u = position F v) : value u = value v := by
  by_cases hzero : position F v = 0
  · rw [value_eq_zero_of_position_eq_zero hfu (h.trans hzero),
      value_eq_zero_of_position_eq_zero hfv hzero]
  · rw [eq_of_position_eq hu hv (isNaN_of_finite hfu) (isNaN_of_finite hfv) hzero h]

/-- **Finite floats are ordered as their values are.** -/
theorem position_le_iff_value_le (hu : Fits F u) (hv : Fits F v) (hfu : u.isFinite = true)
    (hfv : v.isFinite = true) : position F u ≤ position F v ↔ value u ≤ value v := by
  have hmono {a b : UnpackedFloat} (ha : Fits F a) (hb : Fits F b) (hfa : a.isFinite = true)
      (hfb : b.isFinite = true) (h : value a ≤ value b) : position F a ≤ position F b := by
    rw [← roundPosition_value ha hfa, ← roundPosition_value hb hfb]
    exact roundPosition_mono h
  constructor
  · intro h
    by_contra hlt
    have hge := hmono hv hu hfv hfu (not_le.mp hlt).le
    exact hlt (value_eq_of_position_eq hu hv hfu hfv (le_antisymm h hge)).le
  · exact hmono hu hv hfu hfv

theorem isFinite_of_position_lt (hnan : u.isNaN = false) (hlow : -(topRank F : Int) < position F u)
    (hhigh : position F u < topRank F) : u.isFinite = true := by
  cases u with
  | notANumber => cases hnan
  | zero s | finite s m e hm => rfl
  | infinity s => cases s <;> simp only [position, Sign.apply] at hlow hhigh <;> omega

end Value

/-! ## The operations -/

/-- A stored result at a position: not a NaN, and a float of the format. -/
structure StoredAt (F : Format) (u : UnpackedFloat) (k : Int) : Prop where
  isNaN_eq : u.isNaN = false
  fits : Fits F u
  position_eq : position F u = k

section Operations

variable {F : Format} {u v : UnpackedFloat} {s : Sign} {x : ℚ}

theorem HasRank.storedAt (hF : 2 ≤ F.exponentBits) {k : Nat} (h : HasRank F s k u) :
    StoredAt F (settle F u) (s.apply (min k (topRank F) : Nat)) := by
  cases u with
  | notANumber | infinity s' => exact h.elim
  | zero s' =>
    obtain ⟨rfl, rfl⟩ := h
    rw [settle_zero]
    refine ⟨rfl, trivial, ?_⟩
    cases s' <;> simp [position, Sign.apply]
  | finite s' m e hm =>
    obtain ⟨rfl, hcanonical, rfl⟩ := h
    rw [settle_finite hF hm hcanonical]
    split
    · rename_i hlt
      exact ⟨rfl, ⟨hcanonical, hlt⟩, by rw [Nat.min_eq_left (Nat.le_of_lt hlt)]; rfl⟩
    · rename_i hge
      exact ⟨rfl, trivial, by rw [Nat.min_eq_right (Nat.le_of_not_lt hge)]; rfl⟩

theorem apply_roundRank (s : Sign) (hx : 0 ≤ x) :
    s.apply (roundRank F x) = roundPosition F ((s.apply 1 : Int) * x) := by
  cases s with
  | positive => simpa [Sign.apply] using (roundPosition_of_nonneg hx).symm
  | negative =>
    simp only [Sign.apply, Int.cast_neg, Int.cast_one, neg_one_mul]
    rw [roundPosition_neg, roundPosition_of_nonneg hx]

/-- **The last step of every operation.** -/
theorem storedAt_roundWithAccuracy (hF : 2 ≤ F.exponentBits) {m : Nat} {e : Int}
    {accuracy : Accuracy} (hx : 0 < x) (h : Places m accuracy (x / 2 ^ e))
    (he : e ≤ quantum F x) :
    StoredAt F (settle F (roundWithAccuracy F s m e accuracy))
      (roundPosition F ((s.apply 1 : Int) * x)) :=
  apply_roundRank (F := F) s hx.le ▸ (hasRank_roundWithAccuracy hx h he).storedAt hF

theorem value_finite (s : Sign) {m : Nat} (e : Int) (hm : 0 < m) :
    value (.finite s m e hm) = (s.apply 1 : Int) * (m * 2 ^ e) := by
  cases s <;> simp [value, Sign.apply]

theorem cast_apply_mul (s s' : Sign) :
    ((s * s').apply 1 : ℤ) = s.apply 1 * s'.apply 1 := by
  cases s <;> cases s' <;> rfl

theorem div_eq_mul_sign (s s' : Sign) : s / s' = s * s' := by
  cases s <;> cases s' <;> rfl

theorem cast_apply_inv (s : Sign) : ((s.apply 1 : ℤ) : ℚ)⁻¹ = (s.apply 1 : ℤ) := by
  cases s <;> norm_num [Sign.apply]

theorem minExponent_neg (hF : 2 ≤ F.exponentBits) : F.minExponent ≤ 0 := by
  have hm := F.hm
  have hpow : (2 : Int) ^ 1 ≤ 2 ^ (F.exponentBits - 1) :=
    pow_le_pow_right₀ (by norm_num) (by omega)
  unfold Format.minExponent Format.mantissaBits
  push_cast
  omega

/-- A product of two mantissas has enough bits: one of them is full, or both exponents are the
least one and the product is far below the grid. -/
theorem add_exponent_le_quantum (hF : 2 ≤ F.exponentBits) {m n : Nat} {d e : Int}
    (hm : 0 < m) (hn : 0 < n) (h : Canonical F m d) (h' : Canonical F n e) :
    d + e ≤ quantum F ((m : ℚ) * 2 ^ d * (n * 2 ^ e)) := by
  have hneg := minExponent_neg hF
  have hleast := minExponent_le_quantum F ((m : ℚ) * 2 ^ d * (n * 2 ^ e))
  -- Two subnormals have too few bits, but their product is far below the grid.
  by_cases hfew : d = F.minExponent ∧ e = F.minExponent
  · omega
  · have hfull : binade F ≤ m * n := by
      rcases h.full with hfull | hleast
      · exact Nat.le_trans hfull (Nat.le_mul_of_pos_right _ hn)
      · have hfull := h'.full.resolve_right fun he => hfew ⟨hleast, he⟩
        exact Nat.le_trans hfull (Nat.le_mul_of_pos_left _ hm)
    have hplaces : Places (m * n) .exact (((m : ℚ) * 2 ^ d * (n * 2 ^ e)) / 2 ^ (d + e)) := by
      show _ = _
      rw [zpow_add₀ two_ne_zero]
      push_cast
      field_simp
    have hlog := hplaces.log_eq (Nat.mul_pos hm hn)
    have hbits : F.mantissaBitsWithoutImplicit ≤ (m * n).log2 :=
      (Nat.le_log2 (Nat.mul_pos hm hn).ne').mpr hfull
    unfold quantum
    omega

/-- **A product is the exact product, rounded.** -/
theorem storedAt_mul (hF : 2 ≤ F.exponentBits) (hu : Fits F u) (hv : Fits F v)
    (hfu : u.isFinite = true) (hfv : v.isFinite = true) :
    StoredAt F (settle F (mul F u v)) (roundPosition F (value u * value v)) := by
  cases u with
  | notANumber | infinity s => cases hfu
  | zero s =>
    cases v with
    | notANumber | infinity s' => cases hfv
    | zero s' | finite s' n e hn =>
      simp only [mul, settle_zero, value, zero_mul, roundPosition_zero]
      exact ⟨rfl, trivial, rfl⟩
  | finite s m d hm =>
    cases v with
    | notANumber | infinity s' => cases hfv
    | zero s' =>
      simp only [mul, settle_zero, value, mul_zero, roundPosition_zero]
      exact ⟨rfl, trivial, rfl⟩
    | finite s' n e hn =>
      have hx : (0 : ℚ) < (m : ℚ) * 2 ^ d * (n * 2 ^ e) := by positivity
      have hsign : value (.finite s m d hm) * value (.finite s' n e hn) =
          (((s * s').apply 1 : Int) : ℚ) * ((m : ℚ) * 2 ^ d * (n * 2 ^ e)) := by
        rw [value_finite, value_finite, cast_apply_mul]
        push_cast
        ring
      rw [hsign]
      refine storedAt_roundWithAccuracy hF hx ?_ (add_exponent_le_quantum hF hm hn hu.1 hv.1)
      show _ = _
      rw [zpow_add₀ two_ne_zero]
      push_cast
      field_simp

/-- A remainder is compared with half of the divisor, a fraction with a half. -/
theorem compare_add_div {q r n : Nat} (hn : 0 < n) :
    compare ((q : ℚ) + r / n) (q + 1 / 2) = compare (2 * r) n := by
  have hn' : (0 : ℚ) < n := by exact_mod_cast hn
  refine compare_congr ?_ ?_
  · rw [add_lt_add_iff_left, div_lt_div_iff₀ hn' two_pos, one_mul, mul_comm]
    exact_mod_cast Iff.rfl
  · rw [add_lt_add_iff_left, div_lt_div_iff₀ two_pos hn', one_mul, mul_comm]
    exact_mod_cast Iff.rfl

theorem places_div {m n : Nat} (hn : 0 < n) :
    Places (m / n) (accuracyOfFraction (m % n) n) ((m : ℚ) / n) := by
  have hn' : (0 : ℚ) < n := by exact_mod_cast hn
  have hsplit : (m : ℚ) = n * (m / n : Nat) + (m % n : Nat) := by
    exact_mod_cast (Nat.div_add_mod m n).symm
  have hquotient : (m : ℚ) / n = (m / n : Nat) + ((m % n : Nat) : ℚ) / n := by
    rw [div_eq_iff hn'.ne', add_mul, div_mul_cancel₀ _ hn'.ne', mul_comm _ (n : ℚ)]
    exact hsplit
  rw [hquotient]
  unfold accuracyOfFraction
  split
  · rename_i hzero
    show _ = _
    rw [hzero, Nat.cast_zero, zero_div, add_zero]
  · rename_i hne
    have hlow : (0 : ℚ) < ((m % n : Nat) : ℚ) / n :=
      div_pos (by exact_mod_cast Nat.pos_of_ne_zero hne) hn'
    have hhigh : ((m % n : Nat) : ℚ) / n < 1 := by
      rw [div_lt_one hn']
      exact_mod_cast Nat.mod_lt m hn
    exact ⟨by linarith, by linarith, compare_add_div hn⟩

theorem log2_sub_le_log_div {m n : Nat} {d e : Int} (hm : 0 < m) (hn : 0 < n) :
    (m.log2 + d : Int) - (n.log2 + 1 + e) ≤ Int.log 2 ((m : ℚ) * 2 ^ d / (n * 2 ^ e)) := by
  have hx : (0 : ℚ) < (m : ℚ) * 2 ^ d / (n * 2 ^ e) := by positivity
  have hnumerator : (2 : ℚ) ^ (m.log2 + d : Int) ≤ m * 2 ^ d := by
    rw [zpow_add₀ two_ne_zero, zpow_natCast]
    refine mul_le_mul_of_nonneg_right ?_ (zpow_pos two_pos d).le
    exact_mod_cast Nat.log2_self_le hm.ne'
  have hdenominator : (n : ℚ) * 2 ^ e ≤ 2 ^ (n.log2 + 1 + e : Int) := by
    rw [zpow_add₀ two_ne_zero (n.log2 + 1 : Int), ← Nat.cast_succ, zpow_natCast]
    refine mul_le_mul_of_nonneg_right ?_ (zpow_pos two_pos e).le
    exact_mod_cast Nat.lt_log2_self.le
  refine (Int.zpow_le_iff_le_log (b := 2) (by norm_num) hx).mp ?_
  push_cast
  rw [zpow_sub₀ two_ne_zero]
  exact div_le_div₀ (by positivity) hnumerator (by positivity) hdenominator

theorem places_shiftLeft_div (m : Nat) {n : Nat} {d e t : Int} (hn : 0 < n) (ht : t ≤ d - e) :
    Places (m <<< (d - e - t).toNat / n) (accuracyOfFraction (m <<< (d - e - t).toNat % n) n)
      ((m : ℚ) * 2 ^ d / (n * 2 ^ e) / 2 ^ t) := by
  have hshift : ((d - e - t).toNat : Int) = d - e - t := Int.toNat_of_nonneg (by omega)
  have hvalue : ((m <<< (d - e - t).toNat : Nat) : ℚ) / n =
      (m : ℚ) * 2 ^ d / (n * 2 ^ e) / 2 ^ t := by
    rw [Nat.shiftLeft_eq, Nat.cast_mul, Nat.cast_pow, Nat.cast_two, ← zpow_natCast, hshift,
      zpow_sub₀ two_ne_zero, zpow_sub₀ two_ne_zero]
    field_simp
  rw [← hvalue]
  exact places_div hn

/-- The place that a division aims at is not above the last place of the quotient. -/
theorem targetExponent_le_quantum {m n : Nat} {d e : Int} (hm : 0 < m) (hn : 0 < n) :
    F.targetExponent (totalExponent m d - totalExponent n e) ≤
      quantum F ((m : ℚ) * 2 ^ d / (n * 2 ^ e)) := by
  have hlog := log2_sub_le_log_div (d := d) (e := e) hm hn
  unfold quantum Format.targetExponent totalExponent Format.mantissaBits
  omega

/-- **A quotient by a number other than zero is the exact quotient, rounded.** -/
theorem storedAt_div (hF : 2 ≤ F.exponentBits) (hfu : u.isFinite = true)
    (hfv : v.isFinite = true) (hne : value v ≠ 0) :
    StoredAt F (settle F (div F u v)) (roundPosition F (value u / value v)) := by
  cases v with
  | notANumber | infinity s' => cases hfv
  | zero s' => exact absurd rfl hne
  | finite s' n e hn =>
    cases u with
    | notANumber | infinity s => cases hfu
    | zero s =>
      simp only [div, settle_zero, value, zero_div, roundPosition_zero]
      exact ⟨rfl, trivial, rfl⟩
    | finite s m d hm =>
      have hx : (0 : ℚ) < (m : ℚ) * 2 ^ d / (n * 2 ^ e) := by positivity
      have hsign : value (.finite s m d hm) / value (.finite s' n e hn) =
          (((s / s').apply 1 : Int) : ℚ) * ((m : ℚ) * 2 ^ d / (n * 2 ^ e)) := by
        rw [value_finite, value_finite, div_eq_mul_sign, cast_apply_mul, mul_div_mul_comm,
          div_eq_mul_inv ((s.apply 1 : Int) : ℚ), cast_apply_inv]
        push_cast
        rfl
      rw [hsign]
      -- The numerator is shifted until the quotient has enough bits, but never to the right.
      have hplaces := places_shiftLeft_div m (d := d) (e := e) hn
        (Int.min_le_left (d - e) (F.targetExponent (totalExponent m d - totalExponent n e)))
      exact storedAt_roundWithAccuracy hF hx hplaces
        (Int.le_trans (Int.min_le_right _ _) (targetExponent_le_quantum hm hn))

theorem roundWithAccuracy_zero (e : Int) :
    roundWithAccuracy F s 0 e .exact = .zero s := by
  have hempty (n : Nat) : (ExtendedMantissa.ofMantissaAndAccuracy 0 .exact >>> n).mantissa = 0 ∧
      (ExtendedMantissa.ofMantissaAndAccuracy 0 .exact >>> n).roundedMantissa = 0 := by
    have hstart : Places (ExtendedMantissa.ofMantissaAndAccuracy 0 .exact).mantissa
        (ExtendedMantissa.ofMantissaAndAccuracy 0 .exact).accuracy 0 := Nat.cast_zero.symm
    have hend := hstart.shiftRight n
    rw [zero_div] at hend
    refine ⟨by rw [← hend.floor_eq, Nat.floor_zero], ?_⟩
    exact hend.roundToNearestEven_eq.trans (by exact_mod_cast nearestEven_natCast 0)
  unfold roundWithAccuracy
  simp only [shiftToTargetExponent, shiftToExponent, (hempty _).1, (hempty _).2, dite_true]

/-- **Rounding any number** `± m · 2 ^ e`, whatever its exponent. -/
theorem storedAt_round (hF : 2 ≤ F.exponentBits) (m : Nat) (e : Int) :
    StoredAt F (settle F (UnpackedFloat.round F s m e))
      (roundPosition F ((s.apply 1 : Int) * (m * 2 ^ e))) := by
  unfold UnpackedFloat.round decreaseExponent
  rcases Nat.eq_zero_or_pos m with rfl | hm
  · simp only [Nat.zero_shiftLeft, roundWithAccuracy_zero, settle_zero, Nat.cast_zero, zero_mul,
      mul_zero, roundPosition_zero]
    exact ⟨rfl, trivial, rfl⟩
  · have hx : (0 : ℚ) < m * 2 ^ e := by positivity
    have hplaces : Places m .exact ((m : ℚ) * 2 ^ e / 2 ^ e) :=
      mul_div_cancel_right₀ _ (zpow_pos two_pos e).ne'
    -- The mantissa is shifted left until its exponent is not above that of the result.
    have htarget := hplaces.targetExponent_eq (F := F) hm
    simp only [htarget]
    generalize hshift : (e - quantum F ((m : ℚ) * 2 ^ e)).toNat = k
    refine storedAt_roundWithAccuracy hF hx ?_ (by omega)
    show _ = _
    rw [Nat.shiftLeft_eq, zpow_sub₀ two_ne_zero]
    push_cast
    rw [zpow_natCast]
    field_simp

/-- Any integer multiple of a power of two, rounded; the sign is that of the integer. -/
theorem storedAt_normalize (hF : 2 ≤ F.exponentBits) (mantissa : Int) (e : Int) :
    StoredAt F (settle F (UnpackedFloat.normalize F mantissa e s))
      (roundPosition F (mantissa * 2 ^ e)) := by
  unfold UnpackedFloat.normalize
  rcases lt_trichotomy mantissa 0 with h | rfl | h
  · obtain ⟨m, rfl⟩ : ∃ m : Nat, mantissa = -m := ⟨mantissa.natAbs, by omega⟩
    rw [compare_lt_iff_lt.mpr h]
    simpa [Sign.apply] using storedAt_round hF (s := .negative) m e
  · simp only [compare_eq_iff_eq.mpr (rfl : (0 : Int) = 0), settle_zero, Int.cast_zero, zero_mul,
      roundPosition_zero]
    exact ⟨rfl, trivial, rfl⟩
  · obtain ⟨m, rfl⟩ : ∃ m : Nat, mantissa = m := ⟨mantissa.toNat, by omega⟩
    rw [compare_gt_iff_gt.mpr h]
    simpa [Sign.apply] using storedAt_round hF (s := .positive) m e

/-- A mantissa written with a smaller exponent. -/
theorem apply_shiftLeft (s : Sign) {m : Nat} {e d : Int} (hm : 0 < m) (h : d ≤ e) :
    ((s.apply (m <<< (e - d).toNat : Nat) : Int) : ℚ) * 2 ^ d = value (.finite s m e hm) := by
  have hshift : ((e - d).toNat : Int) = e - d := Int.toNat_of_nonneg (by omega)
  have hvalue : ((m <<< (e - d).toNat : Nat) : ℚ) * 2 ^ d = m * 2 ^ e := by
    rw [Nat.shiftLeft_eq, Nat.cast_mul, Nat.cast_pow, Nat.cast_two, ← zpow_natCast, hshift,
      zpow_sub₀ two_ne_zero]
    field_simp
  rw [value_finite, ← hvalue]
  cases s <;> simp only [Sign.apply, Int.cast_neg, Int.cast_natCast, Int.cast_one] <;> ring

/-- **A sum is the exact sum, rounded.** -/
theorem storedAt_add (hF : 2 ≤ F.exponentBits) (hu : Fits F u) (hv : Fits F v)
    (hfu : u.isFinite = true) (hfv : v.isFinite = true) :
    StoredAt F (settle F (add F u v)) (roundPosition F (value u + value v)) := by
  have hself {w : UnpackedFloat} (hw : Fits F w) (hfw : w.isFinite = true) :
      StoredAt F (settle F w) (roundPosition F (value w)) := by
    rw [settle_of_fits hF hw, roundPosition_value hw hfw]
    exact ⟨isNaN_of_finite hfw, hw, rfl⟩
  cases u with
  | notANumber | infinity s => cases hfu
  | zero s =>
    rw [show value (.zero s) = 0 from rfl, zero_add]
    cases v with
    | notANumber | infinity s' => cases hfv
    | zero s' =>
      simp only [add]
      split <;> exact hself trivial rfl
    | finite s' n e hn => exact hself hv rfl
  | finite s m d hm =>
    cases v with
    | notANumber | infinity s' => cases hfv
    | zero s' =>
      rw [show value (.zero s') = 0 from rfl, add_zero]
      exact hself hu rfl
    | finite s' n e hn =>
      -- Both mantissas are written with the smaller exponent, and then added.
      rw [← apply_shiftLeft s hm (Int.min_le_left d e),
        ← apply_shiftLeft s' hn (Int.min_le_right d e), ← add_mul, ← Int.cast_add]
      exact storedAt_normalize hF _ _

/-! ### Squares -/

theorem storedAt_square_of_infinite (hnan : u.isNaN = false) (hfinite : u.isFinite = false) :
    StoredAt F (settle F (mul F u u)) (topRank F) := by
  cases u with
  | notANumber => cases hnan
  | zero s | finite s m e hm => cases hfinite
  | infinity s =>
    simp only [mul, settle_infinity]
    refine ⟨rfl, trivial, ?_⟩
    cases s <;> rfl

/-- **Squaring is monotone** on what is not negative, up to infinity. -/
theorem position_square_mono (hF : 2 ≤ F.exponentBits) (hu : Fits F u) (hv : Fits F v)
    (hnu : u.isNaN = false) (hnv : v.isNaN = false) (hpos : 0 ≤ position F u)
    (h : position F u ≤ position F v) :
    ∃ j k, StoredAt F (settle F (mul F u u)) j ∧
      StoredAt F (settle F (mul F v v)) k ∧ j ≤ k := by
  by_cases hfv : v.isFinite = true
  · have hbelow := position_lt_topRank hv hfv
    have hfu : u.isFinite = true := isFinite_of_position_lt (F := F) hnu (by omega) (by omega)
    have hvalue := (position_le_iff_value_le hu hv hfu hfv).mp h
    -- Both finite: the exact squares are ordered, and so are their roundings.
    have hzero : (0 : ℚ) ≤ value u :=
      (position_le_iff_value_le (F := F) (u := .zero .positive) trivial hu rfl hfu).mp hpos
    exact ⟨_, _, storedAt_mul hF hu hu hfu hfu, storedAt_mul hF hv hv hfv hfv,
      roundPosition_mono (mul_le_mul hvalue hvalue hzero (le_trans hzero hvalue))⟩
  · have hlarge := storedAt_square_of_infinite (F := F) hnv (Bool.eq_false_iff.mpr hfv)
    by_cases hfu : u.isFinite = true
    · have hsmall := storedAt_mul hF hu hu hfu hfu
      exact ⟨_, _, hsmall, hlarge, hsmall.position_eq ▸ position_le_topRank hsmall.fits⟩
    · exact ⟨_, _, storedAt_square_of_infinite hnu (Bool.eq_false_iff.mpr hfu), hlarge,
        Int.le_refl _⟩

end Operations

end FeatureMatching.Numeric
