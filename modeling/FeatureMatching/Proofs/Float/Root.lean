import Mathlib
import FeatureMatching.Proofs.Float.Specials

/-!
# Square roots

The root of a float is rarely a rational number, so there is no exact result to round. What the
operation computes is the integer root of a mantissa that was shifted far enough, and from the
remainder the half of a unit in which the root lies. Every number of that half unit is rounded to
the same place, and there are rational ones on either side of the root (`exists_places_root`). For
an order that is enough: a number below the smaller root is not above one that is beyond the larger
root (`position_sqrt_mono`).
-/

set_option autoImplicit false

namespace FeatureMatching.Numeric

open Float.Model (Format UnpackedFloat totalExponent)
open Float.Model.UnpackedFloat

/-! ## The integer root -/

/-- What the remainder says of the root of an integer: a root that is not an integer is never
halfway between two. -/
def rootAccuracy (n : Nat) : Accuracy :=
  if n - Nat.sqrt n * Nat.sqrt n = 0 then .exact
  else .inexact (if n - Nat.sqrt n * Nat.sqrt n ≤ Nat.sqrt n then .lt else .gt)

theorem exists_around_root {a b x : ℚ} (hb : 0 ≤ b) (hlow : a ^ 2 < x)
    (hhigh : x < b ^ 2) :
    ∃ low high, (a < low ∧ low < b) ∧ (a < high ∧ high < b) ∧ low ^ 2 ≤ x ∧ x ≤ high ^ 2 := by
  have hx : 0 < x := (sq_nonneg a).trans_lt hlow
  obtain ⟨low, hpos, halow, hlowx⟩ := exists_rat_pow_btwn two_ne_zero hlow hx
  obtain ⟨high, hpos', hxhigh, hhighb⟩ := exists_rat_pow_btwn two_ne_zero hhigh (hx.trans hhigh)
  simp only [Rat.cast_id] at halow hlowx hxhigh hhighb
  refine ⟨low, high, ⟨lt_of_pow_lt_pow_left₀ 2 hpos.le halow, ?_⟩, ⟨?_, ?_⟩, hlowx.le, hxhigh.le⟩
  · exact lt_of_pow_lt_pow_left₀ 2 hb (hlowx.trans hhigh)
  · exact lt_of_pow_lt_pow_left₀ 2 hpos'.le (hlow.trans hxhigh)
  · exact lt_of_pow_lt_pow_left₀ 2 hb hhighb

/-- **Around the root of an integer** there are rational numbers that the accuracy does not tell
from it. -/
theorem exists_places_root (n : Nat) :
    ∃ low high : ℚ, low ^ 2 ≤ n ∧ n ≤ high ^ 2 ∧ Places (Nat.sqrt n) (rootAccuracy n) low ∧
      Places (Nat.sqrt n) (rootAccuracy n) high := by
  have hfloor : Nat.sqrt n * Nat.sqrt n ≤ n := Nat.sqrt_le n
  have hceil : n < (Nat.sqrt n + 1) * (Nat.sqrt n + 1) := Nat.lt_succ_sqrt n
  unfold rootAccuracy
  generalize Nat.sqrt n = root at hfloor hceil ⊢
  obtain ⟨rest, rfl⟩ := Nat.exists_eq_add_of_le hfloor
  rw [Nat.add_sub_cancel_left]
  have hroot : (0 : ℚ) ≤ root := Nat.cast_nonneg root
  split
  · rename_i hexact
    refine ⟨root, root, ?_, ?_, rfl, rfl⟩ <;> rw [hexact] <;> push_cast <;> linarith
  · rename_i hinexact
    have hrest : (0 : ℚ) < rest := by exact_mod_cast Nat.pos_of_ne_zero hinexact
    split
    · rename_i hhalf
      have hhalf' : (rest : ℚ) ≤ root := by exact_mod_cast hhalf
      obtain ⟨low, high, ⟨h1, h2⟩, ⟨h3, h4⟩, hsquare, hsquare'⟩ :=
        exists_around_root (a := root) (b := root + 1 / 2) (x := (root * root + rest : Nat))
          (by positivity) (by push_cast; nlinarith) (by push_cast; nlinarith)
      exact ⟨low, high, hsquare, hsquare', ⟨h1, by linarith, compare_lt_iff_lt.mpr h2⟩,
        ⟨h3, by linarith, compare_lt_iff_lt.mpr h4⟩⟩
    · rename_i hhalf
      have hhalf' : (root : ℚ) + 1 ≤ rest := by exact_mod_cast Nat.lt_of_not_le hhalf
      have hceil' : (rest : ℚ) < 2 * root + 1 := by
        have : rest < 2 * root + 1 := by linarith
        exact_mod_cast this
      obtain ⟨low, high, ⟨h1, h2⟩, ⟨h3, h4⟩, hsquare, hsquare'⟩ :=
        exists_around_root (a := root + 1 / 2) (b := root + 1) (x := (root * root + rest : Nat))
          (by positivity) (by push_cast; nlinarith) (by push_cast; nlinarith)
      exact ⟨low, high, hsquare, hsquare', ⟨by linarith, h2, compare_gt_iff_gt.mpr h1⟩,
        ⟨by linarith, h4, compare_gt_iff_gt.mpr h3⟩⟩

/-! ## The root of a float -/

section Root

variable {F : Format} {m : Nat} {e : Int}

/-- **What `sqrtCore` returns**: the integer root of the mantissa, written with an even exponent
that is small enough for the root to have all its bits. -/
theorem sqrtCore_eq (hm : 0 < m) :
    ∃ (n : Nat) (t : Int), sqrtCore F m e = (Nat.sqrt n, t, rootAccuracy n) ∧ 0 < n ∧
      (n : ℚ) * (2 ^ t) ^ 2 = m * 2 ^ e ∧
      (t ≤ F.minExponent ∨ F.mantissaBitsWithoutImplicit ≤ (Nat.sqrt n).log2) := by
  let t : Int := min (e.ediv 2) (F.targetExponent ((totalExponent m e + 1).ediv 2))
  have hshift : ((e - 2 * t).toNat : Int) = e - 2 * t := by
    refine Int.toNat_of_nonneg ?_
    have : t ≤ e / 2 := Int.min_le_left _ _
    omega
  have hn : 0 < m <<< (e - 2 * t).toNat := by
    rw [Nat.shiftLeft_eq]
    positivity
  refine ⟨m <<< (e - 2 * t).toNat, t, rfl, hn, ?_, ?_⟩
  · rw [Nat.shiftLeft_eq, Nat.cast_mul, Nat.cast_pow, Nat.cast_two, ← zpow_natCast, hshift,
      mul_assoc, ← zpow_natCast, ← zpow_mul, ← zpow_add₀ two_ne_zero]
    congr 2
    push_cast
    ring
  · refine or_iff_not_imp_left.mpr fun hleast => ?_
    have htarget : t ≤ F.targetExponent ((totalExponent m e + 1) / 2) := Int.min_le_right _ _
    have hbits : 2 * F.mantissaBitsWithoutImplicit ≤ m.log2 + (e - 2 * t).toNat := by
      unfold Format.targetExponent totalExponent Format.mantissaBits at htarget
      omega
    refine (Nat.le_log2 (Nat.sqrt_pos.mpr hn).ne').mpr (Nat.le_sqrt'.mpr ?_)
    calc (2 ^ F.mantissaBitsWithoutImplicit) ^ 2
        = 2 ^ (2 * F.mantissaBitsWithoutImplicit) := by rw [← pow_mul, Nat.mul_comm]
      _ ≤ 2 ^ (m.log2 + (e - 2 * t).toNat) := Nat.pow_le_pow_right two_pos hbits
      _ = 2 ^ m.log2 * 2 ^ (e - 2 * t).toNat := pow_add _ _ _
      _ ≤ m <<< (e - 2 * t).toNat := by
        rw [Nat.shiftLeft_eq]
        exact Nat.mul_le_mul_right _ (Nat.log2_self_le hm.ne')

theorem le_quantum_of_places {root : Nat} {t : Int} {accuracy : Accuracy} {x : ℚ}
    (hroot : 0 < root) (h : Places root accuracy x)
    (hbits : t ≤ F.minExponent ∨ F.mantissaBitsWithoutImplicit ≤ root.log2) :
    t ≤ quantum F (x * 2 ^ t) := by
  have hplaces : Places root accuracy (x * 2 ^ t / 2 ^ t) := by
    rwa [mul_div_cancel_right₀ _ (zpow_pos two_pos t).ne']
  have hlog := hplaces.log_eq hroot
  unfold quantum
  omega

/-- **The root of a float lies between two numbers that are rounded alike**, to the result. -/
theorem exists_storedAt_sqrt (hF : 2 ≤ F.exponentBits) {u : UnpackedFloat}
    (hfinite : u.isFinite = true) (hpos : 0 ≤ position F u) :
    ∃ low high : ℚ, 0 ≤ high ∧ low ^ 2 ≤ value u ∧ value u ≤ high ^ 2 ∧
      StoredAt F (settle F (sqrt F u)) (roundPosition F low) ∧
      StoredAt F (settle F (sqrt F u)) (roundPosition F high) := by
  cases u with
  | notANumber | infinity s => cases hfinite
  | zero s =>
    refine ⟨0, 0, le_rfl, by simp [value], by simp [value], ?_⟩
    simp only [sqrt, settle_zero, roundPosition_zero, and_self]
    exact ⟨rfl, trivial, rfl⟩
  | finite s m e hm =>
    obtain rfl : s = .positive := by
      have hrank := rank_pos (F := F) (e := e) hm
      cases s with
      | positive => rfl
      | negative => simp only [position, Sign.apply] at hpos; omega
    obtain ⟨n, t, hcore, hn, hvalue, hbits⟩ := sqrtCore_eq (F := F) (e := e) hm
    obtain ⟨low, high, hlow, hhigh, hplaces, hplaces'⟩ := exists_places_root n
    have hroot : 0 < Nat.sqrt n := Nat.sqrt_pos.mpr hn
    have hpow : (0 : ℚ) < 2 ^ t := zpow_pos two_pos t
    have hradicand : value (.finite .positive m e hm) = n * (2 ^ t) ^ 2 := by
      rw [hvalue]
      simp [value, Sign.apply]
    -- Any number that the accuracy does not tell from the root gives the result.
    have hstored {x : ℚ} (hx : Places (Nat.sqrt n) (rootAccuracy n) x) :
        0 < x * 2 ^ t ∧ StoredAt F (settle F (sqrt F (.finite .positive m e hm)))
          (roundPosition F (x * 2 ^ t)) := by
      have hx0 : 0 < x * 2 ^ t :=
        mul_pos (lt_of_lt_of_le (by exact_mod_cast hroot) hx.le) hpow
      refine ⟨hx0, ?_⟩
      have h := storedAt_roundWithAccuracy (s := .positive) hF (e := t) hx0
        (by rwa [mul_div_cancel_right₀ _ hpow.ne']) (le_quantum_of_places hroot hx hbits)
      simp only [sqrt, hcore]
      simpa [Sign.apply] using h
    refine ⟨low * 2 ^ t, high * 2 ^ t, (hstored hplaces').1.le, ?_, ?_, (hstored hplaces).2,
      (hstored hplaces').2⟩
    · rw [hradicand, mul_pow]
      exact mul_le_mul_of_nonneg_right hlow (by positivity)
    · rw [hradicand, mul_pow]
      exact mul_le_mul_of_nonneg_right hhigh (by positivity)

theorem storedAt_sqrt_of_infinite {u : UnpackedFloat} (hnan : u.isNaN = false)
    (hfinite : u.isFinite = false) (hpos : 0 ≤ position F u) :
    StoredAt F (settle F (sqrt F u)) (topRank F) := by
  have htop := topRank_pos F
  cases u with
  | notANumber => cases hnan
  | zero s | finite s m e hm => cases hfinite
  | infinity s =>
    cases s with
    | positive =>
      simp only [sqrt, settle_infinity]
      exact ⟨rfl, trivial, rfl⟩
    | negative => simp only [position, Sign.apply] at hpos; omega

/-- **Taking roots is monotone** on what is not negative, up to infinity. -/
theorem position_sqrt_mono (hF : 2 ≤ F.exponentBits) {u v : UnpackedFloat} (hu : Fits F u)
    (hv : Fits F v) (hnu : u.isNaN = false) (hnv : v.isNaN = false) (hpos : 0 ≤ position F u)
    (h : position F u ≤ position F v) :
    ∃ j k, StoredAt F (settle F (sqrt F u)) j ∧ StoredAt F (settle F (sqrt F v)) k ∧ j ≤ k := by
  have htop := topRank_pos F
  by_cases hfv : v.isFinite = true
  · have hbelow := position_lt_topRank hv hfv
    have hfu : u.isFinite = true := isFinite_of_position_lt (F := F) hnu (by omega) (by omega)
    obtain ⟨low, -, -, hlow, -, hstored, -⟩ := exists_storedAt_sqrt hF hfu hpos
    obtain ⟨-, high, hhigh0, -, hhigh, -, hstored'⟩ :=
      exists_storedAt_sqrt hF hfv (hpos.trans h)
    have hvalue := (position_le_iff_value_le hu hv hfu hfv).mp h
    refine ⟨_, _, hstored, hstored', roundPosition_mono ?_⟩
    exact le_of_sq_le_sq (hlow.trans (hvalue.trans hhigh)) hhigh0
  · have hlarge := storedAt_sqrt_of_infinite hnv (Bool.eq_false_iff.mpr hfv) (hpos.trans h)
    by_cases hfu : u.isFinite = true
    · obtain ⟨_, -, -, -, -, hsmall, -⟩ := exists_storedAt_sqrt hF hfu hpos
      exact ⟨_, _, hsmall, hlarge, hsmall.position_eq ▸ position_le_topRank hsmall.fits⟩
    · exact ⟨_, _, storedAt_sqrt_of_infinite hnu (Bool.eq_false_iff.mpr hfu) hpos, hlarge,
        Int.le_refl _⟩

end Root

/-! ## Signs -/

section Signs

variable {F : Format} {u : UnpackedFloat}

theorem hasSign_abs : HasSign .positive u.abs := by
  cases u with
  | notANumber => trivial
  | infinity s | zero s | finite s m e hm => rfl

theorem HasSign.sqrt (hu : HasSign .positive u) : HasSign .positive (sqrt F u) := by
  cases u with
  | notANumber => trivial
  | infinity s | zero s =>
    obtain rfl : s = .positive := hu
    rfl
  | finite s m e hm =>
    obtain rfl : s = .positive := hu
    exact hasSign_roundWithAccuracy _ _ _

theorem sqrt_of_position_neg (h : position F u < 0) : UnpackedFloat.sqrt F u = .notANumber := by
  cases u with
  | notANumber | zero s => simp [position] at h
  | infinity s | finite s m e hm =>
    cases s with
    | positive => simp only [position, Sign.apply] at h; omega
    | negative => rfl

end Signs

/-! ## Binary32 -/

section Binary32

variable {x y : Float32}

theorem unpack32_sqrt (x : Float32) :
    unpack32 x.sqrt = settle .binary32 (sqrt .binary32 (unpack32 x)) := rfl

theorem unpack32_abs (x : Float32) :
    unpack32 x.abs = settle .binary32 (unpack32 x).abs := rfl

/-- **Taking roots keeps the order**, unless the smaller value is negative and has none. -/
theorem sqrt_le_sqrt32 (h : x ≤ y) : x.sqrt.isNaN = true ∨ x.sqrt ≤ y.sqrt := by
  obtain ⟨⟨hnx, hny⟩, hle⟩ := le_iff_position32.mp h
  rcases lt_or_ge (position32 x) 0 with hneg | hpos
  · left
    show (unpack32 x.sqrt).isNaN = true
    rw [unpack32_sqrt, sqrt_of_position_neg hneg, settle_notANumber]
    rfl
  · right
    obtain ⟨j, k, hj, hk, hjk⟩ := position_sqrt_mono (F := .binary32) (by decide) (fits_unpack32 x)
      (fits_unpack32 y) hnx hny hpos hle
    refine le_iff_position32.mpr ⟨⟨hj.isNaN_eq, hk.isNaN_eq⟩, ?_⟩
    exact hj.position_eq.trans_le (hjk.trans_eq hk.position_eq.symm)

end Binary32

end FeatureMatching.Numeric
