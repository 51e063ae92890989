import Mathlib
import FeatureMatching.Proofs.Float.Binary

/-!
# From binary32 to binary64 and back

Both the precision and the range grow from one format to the other, so widening has nothing to
round: the result is the same number with its mantissa shifted to full length (`unpack64_widen`).
Narrowing rounds that number to the nearest binary32 value, which is the one it came from, and so
the way there and back returns every value, signed zeros, infinities and the NaN included
(`narrow_widen`).
-/

set_option autoImplicit false

namespace FeatureMatching.Numeric

open Float.Model (Format UnpackedFloat)
open Float.Model.UnpackedFloat

/-! ## The same number in the wider format -/

/-- How far a binary32 mantissa is shifted to fill a binary64 one. -/
def widening (m : Nat) : Nat := 52 - m.log2

section Widened

variable {s : Sign} {m : Nat} {e : Int} {hm : 0 < m}

theorem shiftLeft_widening_pos (hm : 0 < m) : 0 < m <<< widening m := by
  rw [Nat.shiftLeft_eq]
  positivity

/-- The shifted mantissa is full, and its exponent is far inside the wider range. -/
theorem fits_widened (h : Fits Format.binary32 (.finite s m e hm)) :
    Fits Format.binary64
      (.finite s (m <<< widening m) (e - widening m) (shiftLeft_widening_pos hm)) := by
  obtain ⟨⟨hlt, hleast, -⟩, hrank⟩ := h
  have hexponents : -149 ≤ e ∧ e ≤ 105 := by
    have hmin : Format.binary32.minExponent = -149 := rfl
    have hbinade : binade Format.binary32 = 2 ^ 23 := rfl
    have htop : topRank Format.binary32 = 255 * 2 ^ 23 := rfl
    rw [hmin] at hleast
    rw [rank, hmin, hbinade, htop] at hrank
    omega
  have hmin : Format.binary64.minExponent = -1074 := rfl
  have htop : topRank Format.binary64 = 2047 * binade Format.binary64 := rfl
  have hlog : m.log2 < 24 := (Nat.log2_lt hm.ne').mpr hlt
  have hlow : binade Format.binary64 ≤ m <<< widening m :=
    calc binade Format.binary64 = 2 ^ (m.log2 + (52 - m.log2)) := by
          rw [Nat.add_sub_cancel' (by omega)]
          rfl
      _ = 2 ^ m.log2 * 2 ^ widening m := Nat.pow_add _ _ _
      _ ≤ m * 2 ^ widening m := Nat.mul_le_mul_right _ (Nat.log2_self_le hm.ne')
      _ = m <<< widening m := (Nat.shiftLeft_eq _ _).symm
  have hhigh : m <<< widening m < 2 * binade Format.binary64 :=
    calc m <<< widening m = m * 2 ^ widening m := Nat.shiftLeft_eq _ _
      _ < 2 ^ (m.log2 + 1) * 2 ^ widening m :=
        Nat.mul_lt_mul_of_pos_right Nat.lt_log2_self (Nat.two_pow_pos _)
      _ = 2 ^ (m.log2 + 1 + (52 - m.log2)) := (Nat.pow_add _ _ _).symm
      _ = 2 * binade Format.binary64 := by
        rw [show m.log2 + 1 + (52 - m.log2) = 53 by omega]
        rfl
  have hsteps : (e - widening m - Format.binary64.minExponent).toNat ≤ 1179 := by omega
  refine ⟨⟨hhigh, ?_, .inl hlow⟩, ?_⟩
  · unfold widening
    omega
  · calc (e - widening m - Format.binary64.minExponent).toNat * binade Format.binary64 +
          m <<< widening m
        ≤ 1179 * binade Format.binary64 + m <<< widening m :=
          Nat.add_le_add_right (Nat.mul_le_mul_right _ hsteps) _
      _ < topRank Format.binary64 := by omega

theorem value_widened (s : Sign) (e : Int) (hm : 0 < m) :
    value (.finite s (m <<< widening m) (e - widening m) (shiftLeft_widening_pos hm)) =
      value (.finite s m e hm) := by
  rw [value_finite, value_finite, Nat.shiftLeft_eq, zpow_sub₀ two_ne_zero]
  push_cast
  rw [zpow_natCast]
  field_simp

end Widened

/-- **Widening is exact.** -/
theorem unpack64_widen (x : Float32) :
    unpack64 (widen x) =
      match unpack32 x with
      | .finite s m e hm =>
        .finite s (m <<< widening m) (e - widening m) (shiftLeft_widening_pos hm)
      | special => special := by
  have hfits := fits_unpack32 x
  unfold widen
  cases hx : unpack32 x with
  | notANumber => exact settle_notANumber
  | infinity s => exact settle_infinity s
  | zero s => exact settle_zero s
  | finite s m e hm =>
    rw [hx] at hfits
    have hwide := fits_widened hfits
    have hstored := storedAt_round (F := Format.binary64) (by decide) (s := s) m e
    rw [← value_finite s e hm, ← value_widened s e hm, roundPosition_value hwide rfl] at hstored
    exact eq_of_position_eq hstored.fits hwide hstored.isNaN_eq rfl (position_ne_zero _)
      hstored.position_eq

theorem value64_widen (x : Float32) : value64 (widen x) = value32 x := by
  unfold value64 value32
  rw [unpack64_widen]
  cases unpack32 x with
  | notANumber | infinity s | zero s => rfl
  | finite s m e hm => exact value_widened s e hm

@[simp] theorem isFinite_widen (x : Float32) : (widen x).isFinite = x.isFinite := by
  show (unpack64 (widen x)).isFinite = (unpack32 x).isFinite
  rw [unpack64_widen]
  cases unpack32 x <;> rfl

/-! ## Back again -/

/-- A binary32 value is what it is read as; there is one NaN. -/
theorem unpack32_injective {x y : Float32} (h : unpack32 x = unpack32 y) : x = y := by
  obtain ⟨⟨bits, valid⟩⟩ := x
  obtain ⟨⟨bits', valid'⟩⟩ := y
  have hbits := (unpack_inj_of_valid valid valid').mp h
  obtain rfl : bits = bits' := UInt32.toBitVec_inj.mp hbits
  rfl

theorem unpack32_narrow_widen (x : Float32) : unpack32 (narrow (widen x)) = unpack32 x := by
  have hfits := fits_unpack32 x
  unfold narrow
  rw [unpack64_widen]
  cases hx : unpack32 x with
  | notANumber => exact settle_notANumber
  | infinity s => exact settle_infinity s
  | zero s => exact settle_zero s
  | finite s m e hm =>
    rw [hx] at hfits
    have hstored := storedAt_round (F := Format.binary32) (by decide) (s := s) (m <<< widening m)
      (e - widening m)
    rw [← value_finite s _ (shiftLeft_widening_pos hm), value_widened s e hm,
      roundPosition_value hfits rfl] at hstored
    exact eq_of_position_eq hstored.fits hfits hstored.isNaN_eq rfl (position_ne_zero hm)
      hstored.position_eq

/-- **Narrowing a widened value returns it.** -/
theorem narrow_widen (x : Float32) : narrow (widen x) = x :=
  unpack32_injective (unpack32_narrow_widen x)

end FeatureMatching.Numeric
