import Mathlib
import FeatureMatching.Proofs.Float.Grid

/-!
# Rounding as a monotone map onto the grid

`roundWithAccuracy` is the last step of every operation on floats. It is given an exact value as a
mantissa, an exponent and what is known of the part cut off, shifts twice and rounds in between.
Here it is compared with a function of the exact value alone: `gridRank x` is the rank of the grid
value nearest to `x`, ties to the even mantissa, with no bound on the exponent. The bound enters
when the result is stored, as a minimum with the rank of infinity (`roundPosition`).

What the rest of the library needs of a rounded result is then two facts about `roundPosition`: it
is monotone in the exact value (`roundPosition_mono`), and a value on the grid is its own rounding
(`roundPosition_value`). How far a result is from the exact value plays no part.
-/

set_option autoImplicit false

namespace FeatureMatching.Numeric

open Float.Model (Format UnpackedFloat totalExponent)
open Float.Model.UnpackedFloat

/-! ## The nearest integer -/

/-- The integer nearest to a non-negative number, the even one if two are equally near. -/
def nearestEven (x : ℚ) : Nat :=
  match compare x (⌊x⌋₊ + 1 / 2) with
  | .lt => ⌊x⌋₊
  | .eq => ⌊x⌋₊ + ⌊x⌋₊ % 2
  | .gt => ⌊x⌋₊ + 1

theorem floor_le_nearestEven (x : ℚ) : ⌊x⌋₊ ≤ nearestEven x := by
  unfold nearestEven
  split <;> omega

theorem nearestEven_le_floor_succ (x : ℚ) : nearestEven x ≤ ⌊x⌋₊ + 1 := by
  unfold nearestEven
  split <;> omega

/-- Between two integers the nearest one moves up at the half; across an integer it cannot move
down past it. -/
theorem nearestEven_mono {x y : ℚ} (h : x ≤ y) : nearestEven x ≤ nearestEven y := by
  rcases Nat.lt_or_eq_of_le (Nat.floor_le_floor h) with hlt | heq
  -- In different units the integer between them separates the two roundings.
  · exact Nat.le_trans (nearestEven_le_floor_succ x)
      (Nat.le_trans hlt (floor_le_nearestEven y))
  · rcases lt_or_ge x (⌊x⌋₊ + 1 / 2) with hx | hx
    · have hdown : nearestEven x = ⌊x⌋₊ := by
        unfold nearestEven
        rw [compare_lt_iff_lt.mpr hx]
      rw [hdown, heq]
      exact floor_le_nearestEven y
    · rcases lt_or_eq_of_le (le_trans hx h) with hy | hy
      · have hup : nearestEven y = ⌊y⌋₊ + 1 := by
          unfold nearestEven
          rw [← heq, compare_gt_iff_gt.mpr hy]
        rw [hup, ← heq]
        exact nearestEven_le_floor_succ x
      · rw [le_antisymm h (hy ▸ hx)]

/-- What a mantissa and an accuracy say of the exact value, in units of the last place. -/
def Places (mantissa : Nat) : Accuracy → ℚ → Prop
  | .exact, x => x = mantissa
  | .inexact side, x => mantissa < x ∧ x < mantissa + 1 ∧ compare x (mantissa + 1 / 2) = side

theorem Places.floor_eq {m : Nat} {accuracy : Accuracy} {x : ℚ} (h : Places m accuracy x) :
    ⌊x⌋₊ = m := by
  cases accuracy with
  | exact =>
    obtain rfl : x = m := h
    exact Nat.floor_natCast m
  | inexact side =>
    obtain ⟨hlow, hhigh, -⟩ := h
    exact (Nat.floor_eq_iff (le_trans (Nat.cast_nonneg m) hlow.le)).mpr ⟨hlow.le, hhigh⟩

theorem Places.nonneg {m : Nat} {accuracy : Accuracy} {x : ℚ} (h : Places m accuracy x) :
    0 ≤ x := by
  cases accuracy with
  | exact => exact h ▸ Nat.cast_nonneg m
  | inexact side => exact le_trans (Nat.cast_nonneg m) h.1.le

/-- Rounding by the accuracy is rounding the exact value. -/
theorem Places.roundToNearestEven_eq {m : Nat} {accuracy : Accuracy} {x : ℚ}
    (h : Places m accuracy x) : accuracy.roundToNearestEven m = nearestEven x := by
  unfold nearestEven
  rw [h.floor_eq]
  cases accuracy with
  | exact =>
    obtain rfl : x = m := h
    rw [compare_lt_iff_lt.mpr (lt_add_of_pos_right _ (by norm_num))]
    rfl
  | inexact side =>
    rw [h.2.2]
    cases side <;> rfl

theorem nearestEven_natCast (m : Nat) : nearestEven m = m :=
  (Places.roundToNearestEven_eq (show Places m .exact (m : ℚ) from rfl)).symm

/-! ## Shifting out bits -/

theorem Places.tail {em : ExtendedMantissa} {x : ℚ} (h : Places em.mantissa em.accuracy x) :
    (em.roundBit || em.stickyBit) = false ∧ x = em.mantissa ∨
      (em.roundBit || em.stickyBit) = true ∧ em.mantissa < x ∧ x < em.mantissa + 1 := by
  obtain ⟨m, roundBit, stickyBit⟩ := em
  cases roundBit <;> cases stickyBit
  · exact Or.inl ⟨rfl, h⟩
  all_goals exact Or.inr ⟨rfl, h.1, h.2.1⟩

/-- One shift halves the value and keeps what is known of it: the bit shifted out tells the lower
half of a unit from the upper one, and the bits below it tell the ends from the inside. -/
theorem Places.shiftRightOne {em : ExtendedMantissa} {x : ℚ}
    (h : Places em.mantissa em.accuracy x) :
    Places em.shiftRightOne.mantissa em.shiftRightOne.accuracy (x / 2) := by
  have hsplit : (em.mantissa : ℚ) = 2 * (em.mantissa / 2 : Nat) + (em.mantissa % 2 : Nat) := by
    exact_mod_cast (Nat.div_add_mod em.mantissa 2).symm
  unfold ExtendedMantissa.shiftRightOne
  rcases Nat.mod_two_eq_zero_or_one em.mantissa with hbit | hbit <;>
    rw [hbit] at hsplit <;> push_cast at hsplit <;>
    rcases h.tail with ⟨htail, hx⟩ | ⟨htail, hlow, hhigh⟩ <;> rw [hbit, htail]
  · show x / 2 = _
    linarith
  · refine ⟨by linarith, by linarith, compare_lt_iff_lt.mpr (by linarith)⟩
  · refine ⟨by linarith, by linarith, compare_eq_iff_eq.mpr (by linarith)⟩
  · refine ⟨by linarith, by linarith, compare_gt_iff_gt.mpr (by linarith)⟩

theorem Places.shiftRight {em : ExtendedMantissa} {x : ℚ} (h : Places em.mantissa em.accuracy x)
    (n : Nat) : Places (em >>> n).mantissa (em >>> n).accuracy (x / 2 ^ n) := by
  induction n with
  | zero =>
    rw [pow_zero, div_one]
    exact h
  | succ n ih =>
    rw [pow_succ, ← div_div]
    exact ih.shiftRightOne

theorem accuracy_ofMantissaAndAccuracy (m : Nat) (accuracy : Accuracy) :
    (ExtendedMantissa.ofMantissaAndAccuracy m accuracy).mantissa = m ∧
      (ExtendedMantissa.ofMantissaAndAccuracy m accuracy).accuracy = accuracy := by
  cases accuracy with
  | exact => exact ⟨rfl, rfl⟩
  | inexact side => cases side <;> exact ⟨rfl, rfl⟩

/-! ## The nearest value of the grid -/

section Grid

variable {F : Format} {x y : ℚ}

/-- The exponent of the last place in the binade of a positive number. -/
def quantum (F : Format) (x : ℚ) : Int :=
  max (Int.log 2 x - F.mantissaBitsWithoutImplicit) F.minExponent

theorem cast_binade (F : Format) :
    (binade F : ℚ) = 2 ^ (F.mantissaBitsWithoutImplicit : Int) := by
  unfold binade
  push_cast
  rw [zpow_natCast]

theorem binade_mul_zpow (F : Format) (e : Int) :
    (binade F : ℚ) * 2 ^ e = 2 ^ (e + F.mantissaBitsWithoutImplicit) := by
  rw [cast_binade, ← zpow_add₀ two_ne_zero, add_comm]

theorem minExponent_le_quantum (F : Format) (x : ℚ) : F.minExponent ≤ quantum F x :=
  le_max_right _ _

theorem quantum_mono (hx : 0 < x) (h : x ≤ y) : quantum F x ≤ quantum F y :=
  max_le_max_right _ (Int.sub_le_sub_right (Int.log_mono_right hx h) _)

theorem lt_two_binade_mul_zpow_quantum (F : Format) (x : ℚ) :
    x < 2 * binade F * 2 ^ quantum F x := by
  have hlog : x < 2 ^ (Int.log 2 x + 1) := by
    exact_mod_cast Int.lt_zpow_succ_log_self (b := 2) (by norm_num) x
  refine lt_of_lt_of_le hlog ?_
  rw [mul_assoc, binade_mul_zpow, ← zpow_one_add₀ two_ne_zero]
  refine zpow_le_zpow_right₀ one_le_two ?_
  unfold quantum
  omega

theorem binade_mul_zpow_quantum_le (hx : 0 < x) (h : quantum F x ≠ F.minExponent) :
    binade F * 2 ^ quantum F x ≤ x := by
  have hlog : (2 : ℚ) ^ Int.log 2 x ≤ x := by
    exact_mod_cast Int.zpow_log_le_self (b := 2) (by norm_num) hx
  refine le_trans ?_ hlog
  rw [binade_mul_zpow]
  refine zpow_le_zpow_right₀ one_le_two ?_
  unfold quantum at h ⊢
  omega

theorem quantum_eq {e : Int} (hx : 0 < x) (hleast : F.minExponent ≤ e)
    (hhigh : x < 2 * binade F * 2 ^ e)
    (hlow : binade F * 2 ^ e ≤ x ∨ e = F.minExponent) : quantum F x = e := by
  have hlog : Int.log 2 x < e + F.mantissaBitsWithoutImplicit + 1 := by
    rw [mul_assoc, binade_mul_zpow, ← zpow_one_add₀ two_ne_zero] at hhigh
    have := (Int.lt_zpow_iff_log_lt (b := 2) (by norm_num) hx).mp (by exact_mod_cast hhigh)
    omega
  rcases hlow with hlow | rfl
  · rw [binade_mul_zpow] at hlow
    have := (Int.zpow_le_iff_le_log (b := 2) (by norm_num) hx).mp (by exact_mod_cast hlow)
    unfold quantum
    omega
  · unfold quantum
    omega

/-- The mantissa of the nearest value, which may reach the next binade. -/
def gridMantissa (F : Format) (x : ℚ) : Nat := nearestEven (x / 2 ^ quantum F x)

theorem gridMantissa_le (F : Format) (x : ℚ) : gridMantissa F x ≤ 2 * binade F := by
  have hle : x / 2 ^ quantum F x ≤ ((2 * binade F : Nat) : ℚ) := by
    rw [div_le_iff₀ (zpow_pos two_pos _)]
    push_cast
    exact (lt_two_binade_mul_zpow_quantum F x).le
  exact nearestEven_natCast (2 * binade F) ▸ nearestEven_mono hle

theorem binade_le_gridMantissa (hx : 0 < x) (h : quantum F x ≠ F.minExponent) :
    binade F ≤ gridMantissa F x := by
  have hle : (binade F : ℚ) ≤ x / 2 ^ quantum F x := by
    rw [le_div_iff₀ (zpow_pos two_pos _)]
    exact binade_mul_zpow_quantum_le hx h
  exact nearestEven_natCast (binade F) ▸ nearestEven_mono hle

/-- The rank of the value nearest to a number, without a bound on the exponent; 0 for a number that
is not positive. -/
def gridRank (F : Format) (x : ℚ) : Nat :=
  if 0 < x then rank F (gridMantissa F x) (quantum F x) else 0

/-- **Rounding is monotone.** Within a binade the mantissas are; across binades the lower number
cannot be rounded past the end of its own and the higher one cannot fall below the start of its
own. -/
theorem gridRank_mono (h : x ≤ y) : gridRank F x ≤ gridRank F y := by
  unfold gridRank
  by_cases hx : 0 < x
  · have hy : 0 < y := lt_of_lt_of_le hx h
    rw [if_pos hx, if_pos hy]
    -- The lower number ends at the latest where the binade of the higher one starts.
    rcases lt_or_eq_of_le (quantum_mono (F := F) hx h) with hlt | heq
    · have hleast := minExponent_le_quantum F x
      have hfull := binade_le_gridMantissa (F := F) hy (by omega)
      have hexp : (quantum F x - F.minExponent).toNat + 1 ≤
          (quantum F y - F.minExponent).toNat := by omega
      unfold rank
      calc (quantum F x - F.minExponent).toNat * binade F + gridMantissa F x
          ≤ (quantum F x - F.minExponent).toNat * binade F + 2 * binade F :=
            Nat.add_le_add_left (gridMantissa_le F x) _
        _ = ((quantum F x - F.minExponent).toNat + 1) * binade F + binade F := by ring
        _ ≤ (quantum F y - F.minExponent).toNat * binade F + gridMantissa F y :=
            Nat.add_le_add (Nat.mul_le_mul_right _ hexp) hfull
    · unfold rank gridMantissa
      rw [heq]
      refine Nat.add_le_add_left (nearestEven_mono ?_) _
      exact div_le_div_of_nonneg_right h (zpow_pos two_pos _).le
  · rw [if_neg hx]
    exact Nat.zero_le _

theorem quantum_canonical {m : Nat} {e : Int} (hm : 0 < m) (h : Canonical F m e) :
    quantum F (m * 2 ^ e) = e := by
  have hpow : (0 : ℚ) < 2 ^ e := zpow_pos two_pos e
  refine quantum_eq (mul_pos (by exact_mod_cast hm) hpow) h.least ?_ ?_
  · refine mul_lt_mul_of_pos_right ?_ hpow
    exact_mod_cast h.mantissa_lt
  · refine h.full.imp_left fun hfull => mul_le_mul_of_nonneg_right ?_ hpow.le
    exact_mod_cast hfull

theorem gridRank_canonical {m : Nat} {e : Int} (hm : 0 < m) (h : Canonical F m e) :
    gridRank F (m * 2 ^ e) = rank F m e := by
  have hpow : (0 : ℚ) < 2 ^ e := zpow_pos two_pos e
  unfold gridRank gridMantissa
  rw [if_pos (mul_pos (by exact_mod_cast hm) hpow), quantum_canonical hm h,
    mul_div_cancel_right₀ _ hpow.ne', nearestEven_natCast]

end Grid

/-! ## What `roundWithAccuracy` returns -/

section RoundWithAccuracy

variable {F : Format} {m : Nat} {e : Int} {accuracy : Accuracy} {x : ℚ} {s : Sign}

theorem Places.le (h : Places m accuracy x) : (m : ℚ) ≤ x :=
  h.floor_eq ▸ Nat.floor_le h.nonneg

theorem Places.lt (h : Places m accuracy x) : x < m + 1 :=
  h.floor_eq ▸ Nat.lt_floor_add_one x

/-- The leading bit of a positive mantissa is the leading bit of the value it places. -/
theorem Places.log_eq (hm : 0 < m) (h : Places m accuracy (x / 2 ^ e)) :
    Int.log 2 x = m.log2 + e := by
  have hpow : (0 : ℚ) < 2 ^ e := zpow_pos two_pos e
  have hx : 0 < x := by
    have hpos : 0 < x / 2 ^ e := lt_of_lt_of_le (by exact_mod_cast hm) h.le
    exact (div_pos_iff_of_pos_right hpow).mp hpos
  have hlow : (2 : ℚ) ^ (m.log2 + e) ≤ x := by
    have hbit : ((2 ^ m.log2 : Nat) : ℚ) ≤ m := by exact_mod_cast Nat.log2_self_le hm.ne'
    rw [zpow_add₀ two_ne_zero, ← le_div_iff₀ hpow]
    refine le_trans ?_ h.le
    exact_mod_cast hbit
  have hhigh : x < (2 : ℚ) ^ (m.log2 + e + 1) := by
    have hbit : ((m + 1 : Nat) : ℚ) ≤ (2 ^ (m.log2 + 1) : Nat) := by
      exact_mod_cast Nat.lt_log2_self
    rw [show (m.log2 : Int) + e + 1 = (m.log2 + 1 : Nat) + e by push_cast; ring,
      zpow_add₀ two_ne_zero, ← div_lt_iff₀ hpow]
    refine lt_of_lt_of_le h.lt ?_
    exact_mod_cast hbit
  have h1 := (Int.zpow_le_iff_le_log (b := 2) (by norm_num) hx).mp (by exact_mod_cast hlow)
  have h2 := (Int.lt_zpow_iff_log_lt (b := 2) (by norm_num) hx).mp (by exact_mod_cast hhigh)
  omega

theorem Places.targetExponent_eq (hm : 0 < m) (h : Places m accuracy (x / 2 ^ e)) :
    F.targetExponent (totalExponent m e) = quantum F x := by
  have hlog := h.log_eq hm
  unfold quantum Format.targetExponent totalExponent Format.mantissaBits
  omega

/-- The same for a mantissa that may be empty, as long as no bit of the result is missing. -/
theorem Places.targetExponent_eq_of_le (hx : 0 < x) (h : Places m accuracy (x / 2 ^ e))
    (he : e ≤ quantum F x) : F.targetExponent (totalExponent m e) = quantum F x := by
  rcases Nat.eq_zero_or_pos m with rfl | hm
  · have hbelow : x < 2 ^ e := by
      have hlt := h.lt
      rw [Nat.cast_zero, zero_add, div_lt_one (zpow_pos two_pos e)] at hlt
      exact hlt
    have hlog := (Int.lt_zpow_iff_log_lt (b := 2) (by norm_num) hx).mp (by exact_mod_cast hbelow)
    have hwidth := F.hm
    have hnolog : (0 : Nat).log2 = 0 := by decide
    unfold quantum at he ⊢
    unfold Format.targetExponent totalExponent Format.mantissaBits
    omega
  · exact h.targetExponent_eq hm

theorem Places.shiftToTargetExponent (hx : 0 < x) (h : Places m accuracy (x / 2 ^ e))
    (he : e ≤ quantum F x) :
    let shifted := Float.Model.UnpackedFloat.shiftToTargetExponent F m e accuracy
    shifted.1.roundedMantissa = gridMantissa F x ∧ shifted.2 = quantum F x := by
  have hsum : e + (quantum F x - e).toNat = quantum F x := by omega
  obtain ⟨hmantissa, haccuracy⟩ := accuracy_ofMantissaAndAccuracy m accuracy
  have hstart : Places (ExtendedMantissa.ofMantissaAndAccuracy m accuracy).mantissa
      (ExtendedMantissa.ofMantissaAndAccuracy m accuracy).accuracy (x / 2 ^ e) := by
    rw [hmantissa, haccuracy]
    exact h
  have hend := hstart.shiftRight (quantum F x - e).toNat
  rw [div_div, ← zpow_natCast, ← zpow_add₀ two_ne_zero, hsum] at hend
  simp only [Float.Model.UnpackedFloat.shiftToTargetExponent, shiftToExponent,
    h.targetExponent_eq_of_le hx he]
  exact ⟨hend.roundToNearestEven_eq, hsum⟩

/-- The second shift takes a mantissa that reached the next binade into it, and does nothing to
any other. -/
theorem shiftToTargetExponent_exact (hm : m ≤ 2 * binade F) (he : F.minExponent ≤ e) :
    let shifted := shiftToTargetExponent F m e .exact
    (m < 2 * binade F ∧ shifted.1.mantissa = m ∧ shifted.2 = e) ∨
      (m = 2 * binade F ∧ shifted.1.mantissa = binade F ∧ shifted.2 = e + 1) := by
  rcases Nat.lt_or_eq_of_le hm with hlt | rfl
  · left
    have hlog : m.log2 < F.mantissaBitsWithoutImplicit + 1 := by
      rcases Nat.eq_zero_or_pos m with rfl | hpos
      · rw [show (0 : Nat).log2 = 0 by decide]
        omega
      · refine (Nat.log2_lt hpos.ne').mpr ?_
        rw [Nat.pow_succ, Nat.mul_comm]
        exact hlt
    have hstay : (F.targetExponent (totalExponent m e) - e).toNat = 0 := by
      unfold Format.targetExponent totalExponent Format.mantissaBits
      omega
    simp only [shiftToTargetExponent, shiftToExponent, hstay]
    exact ⟨hlt, rfl, Int.add_zero e⟩
  · right
    have hlog : (2 * binade F).log2 = F.mantissaBitsWithoutImplicit + 1 := by
      unfold binade
      rw [Nat.mul_comm, ← Nat.pow_succ, Nat.log2_two_pow]
    have hstep : (F.targetExponent (totalExponent (2 * binade F) e) - e).toNat = 1 := by
      unfold Format.targetExponent totalExponent Format.mantissaBits
      rw [hlog]
      omega
    refine ⟨rfl, ?_, ?_⟩
    · simp only [shiftToTargetExponent, shiftToExponent, hstep]
      exact Nat.mul_div_cancel_left _ two_pos
    · simp only [shiftToTargetExponent, shiftToExponent, hstep]
      rfl

/-- A float with a sign and a rank that infinity does not bound yet. -/
def HasRank (F : Format) (s : Sign) (k : Nat) : UnpackedFloat → Prop
  | .zero s' => s' = s ∧ k = 0
  | .finite s' m e _ => s' = s ∧ Canonical F m e ∧ rank F m e = k
  | _ => False

/-- **`roundWithAccuracy` returns the nearest value of the grid**, provided that it is given enough
bits: the exponent may not be above that of the result. -/
theorem hasRank_roundWithAccuracy (hx : 0 < x) (h : Places m accuracy (x / 2 ^ e))
    (he : e ≤ quantum F x) :
    HasRank F s (gridRank F x) (roundWithAccuracy F s m e accuracy) := by
  obtain ⟨hrounded, hexponent⟩ := h.shiftToTargetExponent hx he
  have hleast := minExponent_le_quantum F x
  have hle := gridMantissa_le F x
  have hfull := binade_le_gridMantissa (F := F) hx
  unfold roundWithAccuracy gridRank
  rw [if_pos hx]
  simp only [hrounded, hexponent]
  rcases shiftToTargetExponent_exact hle hleast with ⟨hlt, hmantissa, hexp⟩ | ⟨heq, hmantissa, hexp⟩
  · simp only [hmantissa, hexp]
    split
    · rename_i hzero
      refine ⟨rfl, ?_⟩
      -- Only a subnormal number can be rounded to zero: any other has a full mantissa.
      have hsubnormal : quantum F x = F.minExponent := by
        by_contra hne
        have := hfull hne
        have := binade_pos F
        omega
      simp [rank, hzero, hsubnormal]
    · refine ⟨rfl, ⟨hlt, hleast, ?_⟩, rfl⟩
      by_cases hne : quantum F x = F.minExponent
      · exact Or.inr hne
      · exact Or.inl (hfull hne)
  · simp only [hmantissa, hexp, (binade_pos F).ne', dite_false]
    refine ⟨rfl, ⟨?_, by omega, Or.inl (Nat.le_refl _)⟩, ?_⟩
    · have := binade_pos F
      omega
    · have hsucc : (quantum F x + 1 - F.minExponent).toNat =
          (quantum F x - F.minExponent).toNat + 1 := by omega
      unfold rank
      rw [heq, hsucc]
      ring

end RoundWithAccuracy

end FeatureMatching.Numeric
