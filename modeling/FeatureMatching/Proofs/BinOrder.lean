import Mathlib
import FeatureMatching.Descriptor.Quantization
import FeatureMatching.Proofs.Float.Root

/-!
# Quantization keeps the order of the bins

Once the norm is known every bin goes through the same steps, and the question is whether each step
keeps the order. With a positive finite norm all of them do: the quotient by the norm and the
product with 512 are positive multiples, rounded (`Scales`), roots are monotone where they exist,
and the nearest byte is the floor of a sum (`toNat_nearestByte`). A negative bin has no root; its
byte is 0, as it is without the root.

The norm is never negative (`hasSign_norm`). If it is zero the bins are not divided at all. If it is
infinite or a NaN, every quotient is a zero or a NaN and every byte is 0 (`Blank`), so no order is
left to break.
-/

set_option autoImplicit false

namespace FeatureMatching

open Numeric
open Float.Model (Format UnpackedFloat)
open Float.Model.UnpackedFloat

/-! ## Positive multiples -/

theorem exists_infinity_of_not_isFinite {x : Float32} (hnan : x.isNaN = false)
    (hx : x.isFinite = false) : ∃ s, unpack32 x = .infinity s := by
  have hnan' : (unpack32 x).isNaN = false := hnan
  have hfinite' : (unpack32 x).isFinite = false := hx
  cases hu : unpack32 x with
  | infinity s => exact ⟨s, rfl⟩
  | notANumber => rw [hu] at hnan'; cases hnan'
  | zero s | finite s m e hm => rw [hu] at hfinite'; cases hfinite'

/-- A function that multiplies finite values by a number, rounds the product, and keeps the
infinities. -/
structure Scales (c : ℚ) (f : Float32 → Float32) : Prop where
  finite : ∀ x : Float32, x.isFinite = true →
    (f x).isNaN = false ∧ position32 (f x) = roundPosition .binary32 (c * value32 x)
  infinite : ∀ (x : Float32) (s : Sign), unpack32 x = .infinity s → unpack32 (f x) = .infinity s

section Scales

variable {c : ℚ} {f : Float32 → Float32} {w x y : Float32}

theorem Scales.position_of_infinite (h : Scales c f) (hnan : x.isNaN = false)
    (hx : ¬x.isFinite = true) : (f x).isNaN = false ∧ position32 (f x) = position32 x := by
  obtain ⟨s, hinfinity⟩ := exists_infinity_of_not_isFinite hnan (Bool.eq_false_iff.mpr hx)
  have himage := h.infinite x s hinfinity
  constructor
  · show (unpack32 (f x)).isNaN = false
    rw [himage]
    rfl
  · rw [position32, position32, himage, hinfinity]

theorem Scales.isNaN_eq (h : Scales c f) (hx : x.isNaN = false) : (f x).isNaN = false := by
  by_cases hfinite : x.isFinite = true
  · exact (h.finite x hfinite).1
  · exact (h.position_of_infinite hx hfinite).1

/-- **A positive multiple keeps the order**, up to and including the infinities. -/
theorem Scales.le_of_le (h : Scales c f) (hc : 0 ≤ c) (hle : x ≤ y) : f x ≤ f y := by
  obtain ⟨⟨hnx, hny⟩, hposition⟩ := le_iff_position32.mp hle
  refine le_iff_position32.mpr ⟨⟨h.isNaN_eq hnx, h.isNaN_eq hny⟩, ?_⟩
  have hrange (z : Float32) : -(0x7f800000 : Int) ≤ position32 z ∧ position32 z ≤ 0x7f800000 :=
    ⟨neg_topRank_le_position (fits_unpack32 z), position_le_topRank (fits_unpack32 z)⟩
  have hinside {z : Float32} (hnan : z.isNaN = false) :
      z.isFinite = true ↔ -(0x7f800000 : Int) < position32 z ∧ position32 z < 0x7f800000 :=
    ⟨fun hz => ⟨neg_topRank_lt_position (fits_unpack32 z) hz,
        position_lt_topRank (fits_unpack32 z) hz⟩,
      fun hz => isFinite_of_position32 hnan hz.1 hz.2⟩
  by_cases hfx : x.isFinite = true <;> by_cases hfy : y.isFinite = true
  · rw [(h.finite x hfx).2, (h.finite y hfy).2]
    exact roundPosition_mono
      (mul_le_mul_of_nonneg_left ((position32_le_iff hfx hfy).mp hposition) hc)
  -- Infinity is above every value and its negative below.
  · have hbelow := hrange (f x)
    have hy := hrange y
    rw [(h.position_of_infinite hny hfy).2]
    rw [hinside hnx] at hfx
    rw [hinside hny] at hfy
    omega
  · have habove := hrange (f y)
    have hx := hrange x
    rw [(h.position_of_infinite hnx hfx).2]
    rw [hinside hnx] at hfx
    rw [hinside hny] at hfy
    omega
  · rw [(h.position_of_infinite hnx hfx).2, (h.position_of_infinite hny hfy).2]
    exact hposition

theorem exists_unpack32_of_pos (hw : w.isFinite = true) (hpos : 0 < value32 w) :
    ∃ m e, ∃ hm : 0 < m, unpack32 w = .finite .positive m e hm := by
  have hfinite : (unpack32 w).isFinite = true := hw
  unfold value32 at hpos
  cases hu : unpack32 w with
  | notANumber | infinity s => rw [hu] at hfinite; cases hfinite
  | zero s => rw [hu] at hpos; exact absurd hpos (lt_irrefl _)
  | finite s m e hm =>
    cases s with
    | positive => exact ⟨m, e, hm, rfl⟩
    | negative =>
      have hmagnitude : (0 : ℚ) < m * 2 ^ e := by positivity
      rw [hu, value_finite] at hpos
      simp only [Sign.apply, Int.cast_neg, Int.cast_one, neg_one_mul] at hpos
      linarith

theorem scales_mul (hw : w.isFinite = true) (hpos : 0 < value32 w) :
    Scales (value32 w) (w * ·) where
  finite := fun x hx => position32_mul hw hx
  infinite := fun x s hx => by
    obtain ⟨m, e, hm, hw⟩ := exists_unpack32_of_pos hw hpos
    rw [unpack32_mul, hw, hx]
    cases s <;> exact settle_infinity _

theorem scales_div (hw : w.isFinite = true) (hpos : 0 < value32 w) :
    Scales (value32 w)⁻¹ (· / w) where
  finite := fun x hx => by
    have h := position32_div hx hw hpos.ne'
    rwa [div_eq_inv_mul] at h
  infinite := fun x s hx => by
    obtain ⟨m, e, hm, hw⟩ := exists_unpack32_of_pos hw hpos
    rw [unpack32_div, hw, hx]
    cases s <;> exact settle_infinity _

end Scales

/-! ## The nearest byte -/

section Byte

variable {x y : Float32}

theorem roundHalfUp_eq_floor (m : Nat) (e : Int) :
    roundHalfUp m e = ⌊(m : ℚ) * 2 ^ e + 1 / 2⌋₊ := by
  unfold roundHalfUp
  split
  · rename_i he
    obtain ⟨k, rfl⟩ := Int.eq_ofNat_of_zero_le he
    have hinteger : (m : ℚ) * 2 ^ (k : Int) = (m * 2 ^ k : Nat) := by
      rw [zpow_natCast]
      push_cast
      rfl
    rw [Int.toNat_natCast, Nat.shiftLeft_eq, hinteger, eq_comm, Nat.floor_eq_iff (by positivity)]
    constructor <;> linarith
  · rename_i he
    obtain ⟨k, rfl⟩ : ∃ k : Nat, e = -k := ⟨(-e).toNat, by omega⟩
    have hfraction : (m : ℚ) * 2 ^ (-k : Int) + 1 / 2 =
        ((2 * m + 2 ^ k : Nat) : ℚ) / (2 ^ (k + 1) : Nat) := by
      rw [zpow_neg, zpow_natCast, pow_succ]
      push_cast
      field_simp
    rw [hfraction, Nat.floor_div_eq_div, neg_neg, Int.toNat_natCast, Nat.shiftRight_eq_div_pow,
      Nat.one_shiftLeft]

/-- **A byte is the value plus a half, rounded down**, unless the value is out of range. -/
theorem toNat_nearestByte (hx : x.isFinite = true) :
    (nearestByte x).toNat = min 255 ⌊value32 x + 1 / 2⌋₊ := by
  have hfinite : (unpack32 x).isFinite = true := hx
  have hnone {v : ℚ} (hv : v ≤ 0) : min 255 ⌊v + 1 / 2⌋₊ = 0 := by
    rw [Nat.floor_eq_zero.mpr (by linarith)]
    rfl
  unfold nearestByte value32
  cases hu : unpack32 x with
  | notANumber | infinity s => rw [hu] at hfinite; cases hfinite
  | zero s => exact (hnone le_rfl).symm
  | finite s m e hm =>
    have hmagnitude : (0 : ℚ) < m * 2 ^ e := by positivity
    rw [value_finite]
    cases s with
    | negative =>
      simp only [Sign.apply, Int.cast_neg, Int.cast_one, neg_one_mul]
      exact (hnone (by linarith)).symm
    | positive =>
      simp only [Sign.apply, Int.cast_one, one_mul, roundHalfUp_eq_floor]
      exact UInt8.toNat_ofNat_of_lt' (Nat.lt_of_le_of_lt (Nat.min_le_left _ _) (by decide))

theorem nearestByte_of_position_nonpos (h : position32 x ≤ 0) : nearestByte x = 0 := by
  unfold position32 at h
  unfold nearestByte
  cases hu : unpack32 x with
  | notANumber | zero s => rfl
  | infinity s =>
    rw [hu] at h
    cases s with
    | positive => exact absurd h (by decide)
    | negative => rfl
  | finite s m e hm =>
    rw [hu] at h
    have hrank := rank_pos (F := .binary32) (e := e) hm
    cases s with
    | positive => simp only [position, Sign.apply] at h; omega
    | negative => rfl

theorem nearestByte_mono (h : x ≤ y) : nearestByte x ≤ nearestByte y := by
  obtain ⟨⟨hnx, hny⟩, hposition⟩ := le_iff_position32.mp h
  rw [UInt8.le_iff_toNat_le]
  rcases le_or_gt (position32 x) 0 with hneg | hpos
  · rw [nearestByte_of_position_nonpos hneg]
    exact Nat.zero_le _
  by_cases hfy : y.isFinite = true
  · have hbelow := position_lt_topRank (fits_unpack32 y) hfy
    have hfx : x.isFinite = true :=
      isFinite_of_position32 hnx (by omega) (lt_of_le_of_lt hposition hbelow)
    rw [toNat_nearestByte hfx, toNat_nearestByte hfy]
    refine min_le_min_left _ (Nat.floor_le_floor ?_)
    exact add_le_add_left ((position32_le_iff hfx hfy).mp hposition) _
  · obtain ⟨s, hy⟩ := exists_infinity_of_not_isFinite hny (Bool.eq_false_iff.mpr hfy)
    have hbyte : nearestByte y = 255 := by
      have hposy := hpos.trans_le hposition
      unfold position32 at hposy
      unfold nearestByte
      rw [hy] at hposy ⊢
      cases s with
      | positive => rfl
      | negative => exact absurd hposy (by decide)
    rw [hbyte]
    exact Nat.le_of_lt_succ (nearestByte x).toNat_lt

end Byte

/-! ## Values that leave no trace -/

/-- A zero or a NaN, which is what a bin becomes that is divided by an infinity or a NaN. -/
def Blank : UnpackedFloat → Prop
  | .zero _ | .notANumber => True
  | .infinity _ | .finite _ _ _ _ => False

section Blank

variable {F : Format} {u v : UnpackedFloat}

theorem blank_of_isNaN (h : u.isNaN = true) : Blank u := by
  cases u with
  | notANumber => trivial
  | infinity s | zero s | finite s m e hm => cases h

theorem Blank.settle (h : Blank u) : Blank (settle F u) := by
  cases u with
  | zero s => rw [settle_zero]; trivial
  | notANumber => rw [settle_notANumber]; trivial
  | infinity s | finite s m e hm => exact h.elim

theorem blank_div (hv : v.isFinite = false) : Blank (div F u v) := by
  cases v with
  | zero s | finite s m e hm => cases hv
  | notANumber | infinity s => cases u <;> trivial

theorem Blank.sqrt (h : Blank u) : Blank (sqrt F u) := by
  cases u with
  | notANumber | zero s => trivial
  | infinity s | finite s m e hm => exact h.elim

theorem Blank.mul (hu : u.isFinite = true) (hv : Blank v) : Blank (mul F u v) := by
  cases v with
  | infinity s | finite s m e hm => exact hv.elim
  | zero s | notANumber =>
    cases u with
    | notANumber | infinity s => cases hu
    | zero s | finite s m e hm => trivial

theorem quantizeBin_of_blank {x : Float32} (h : Blank (unpack32 x)) : quantizeBin x = 0 := by
  have hproduct : Blank (unpack32 (quantizationScale * x)) :=
    (Blank.mul (F := .binary32) (u := unpack32 quantizationScale) rfl h).settle
  refine nearestByte_of_position_nonpos ?_
  unfold position32
  cases hu : unpack32 (quantizationScale * x) with
  | zero s | notANumber => exact Int.le_refl 0
  | infinity s | finite s m e hm => rw [hu] at hproduct; exact hproduct.elim

end Blank

/-! ## The norm -/

namespace Normalization

theorem hasSign_sum {f : Float32 → Float32} (hf : ∀ v, HasSign .positive (unpack32 (f v)))
    (values : List Float32) : HasSign .positive (unpack32 (sum f values)) := by
  have hstep (total : Float32) (htotal : HasSign .positive (unpack32 total)) :
      HasSign .positive
        (unpack32 (values.foldl (fun total v => total + f v) total)) := by
    induction values generalizing total with
    | nil => exact htotal
    | cons v rest ih => exact ih _ ((htotal.add (F := .binary32) (hf v)).settle)
  exact hstep 0 rfl

/-- **The norm has no sign**, whatever the values are. -/
theorem hasSign_norm (n : Normalization) (values : List Float32) :
    HasSign .positive (unpack32 (n.norm values)) := by
  cases n with
  | l2 =>
    have hsum := hasSign_sum (f := fun v => v * v)
      (fun v => (hasSign_square (F := .binary32)).settle) values
    exact (hsum.sqrt (F := .binary32)).settle
  | l1Root =>
    refine hasSign_sum (f := Float32.abs) (fun v => ?_) values
    rw [unpack32_abs]
    exact hasSign_abs.settle

end Normalization

/-! ## The order of the bins -/

section Order

variable {norm x y : Float32}

theorem beq_zero32_iff : (x == 0) = true ↔ ∃ s, unpack32 x = .zero s := by
  have hbeq : (x == 0) = (unpack32 x).beq (.zero .positive) := rfl
  rw [hbeq]
  cases unpack32 x with
  | notANumber => simp [UnpackedFloat.beq, UnpackedFloat.compare]
  | infinity s | finite s m e hm => cases s <;> simp [UnpackedFloat.beq, UnpackedFloat.compare]
  | zero s => simp [UnpackedFloat.beq, UnpackedFloat.compare]

theorem value32_pos_of_hasSign (hsign : HasSign .positive (unpack32 norm))
    (hfinite : norm.isFinite = true) (hne : ¬(norm == 0) = true) : 0 < value32 norm := by
  have hfinite' : (unpack32 norm).isFinite = true := hfinite
  unfold value32
  cases hu : unpack32 norm with
  | notANumber | infinity s => rw [hu] at hfinite'; cases hfinite'
  | zero s => exact absurd (beq_zero32_iff.mpr ⟨s, hu⟩) hne
  | finite s m e hm =>
    rw [hu] at hsign
    obtain rfl : s = .positive := hsign
    rw [value_finite]
    norm_num [Sign.apply]
    positivity

theorem value32_quantizationScale : value32 quantizationScale = 512 := by
  have hscale : unpack32 quantizationScale = .finite .positive 8388608 (-14) (by decide) := rfl
  rw [value32, hscale]
  norm_num [value, Sign.apply]

theorem quantizeBin_mono (h : x ≤ y) : quantizeBin x ≤ quantizeBin y := by
  have hpos : 0 < value32 quantizationScale := by
    rw [value32_quantizationScale]
    norm_num
  exact nearestByte_mono ((scales_mul rfl hpos).le_of_le hpos.le h)

/-- With a norm that is infinite or a NaN nothing is left of a bin. -/
theorem quantizeBin_rescale_of_not_isFinite (n : Normalization) (hnorm : norm.isFinite = false)
    (x : Float32) : quantizeBin (n.rescale norm x) = 0 := by
  have hne : ¬(norm == 0) = true := by
    rw [beq_zero32_iff]
    rintro ⟨s, hzero⟩
    have hfinite : (unpack32 norm).isFinite = false := hnorm
    rw [hzero] at hfinite
    cases hfinite
  have hquotient : Blank (unpack32 (x / norm)) := (blank_div (F := .binary32) hnorm).settle
  unfold Normalization.rescale
  rw [if_neg hne]
  cases n with
  | l2 => exact quantizeBin_of_blank hquotient
  | l1Root => exact quantizeBin_of_blank (hquotient.sqrt (F := .binary32)).settle

/-- **Each bin keeps its order under a norm without a sign.** -/
theorem quantizeBin_rescale_mono (n : Normalization) (hsign : HasSign .positive (unpack32 norm))
    (h : x ≤ y) : quantizeBin (n.rescale norm x) ≤ quantizeBin (n.rescale norm y) := by
  by_cases hfinite : norm.isFinite = true
  · unfold Normalization.rescale
    split
    · exact quantizeBin_mono h
    · rename_i hne
      have hpos := value32_pos_of_hasSign hsign hfinite hne
      have hquotient : x / norm ≤ y / norm :=
        (scales_div hfinite hpos).le_of_le (inv_nonneg.mpr hpos.le) h
      cases n with
      | l2 => exact quantizeBin_mono hquotient
      | l1Root =>
        rcases sqrt_le_sqrt32 hquotient with hnan | hroot
        -- The smaller bin is negative.
        · rw [quantizeBin_of_blank (blank_of_isNaN hnan)]
          exact UInt8.zero_le
        · exact quantizeBin_mono hroot
  · rw [quantizeBin_rescale_of_not_isFinite n (Bool.eq_false_iff.mpr hfinite),
      quantizeBin_rescale_of_not_isFinite n (Bool.eq_false_iff.mpr hfinite)]
    exact UInt8.le_refl _

end Order

/-- **Quantization keeps the order of the bins.** For both normalizations and any 128 values, NaN,
infinities, negative numbers and subnormals included: of two bins the one with the value that is not
above the other's has a byte that is not above the other's. -/
theorem quantize_keeps_order (n : Normalization) (raw : Vector Float32 binCount)
    (i j : Fin binCount) (h : raw.get i ≤ raw.get j) :
    (Descriptor.quantize n raw).bins.get i ≤ (Descriptor.quantize n raw).bins.get j := by
  have hbin (k : Fin binCount) : (Descriptor.quantize n raw).bins.get k =
      quantizeBin (n.rescale (n.norm raw.toList) (raw.get k)) := by
    simp [Descriptor.quantize, Descriptor.ofNormalized, Vector.get_eq_getElem]
  rw [hbin, hbin]
  exact quantizeBin_rescale_mono n (n.hasSign_norm raw.toList) h

/-- A raw descriptor of length 5. -/
def lengthFive : Vector Float32 binCount :=
  .ofFn fun k => if k.val = 0 then 1 else if k.val < 3 then 2 else if k.val = 3 then 4 else 0

/-- Both normalizations keep the first bin below the second one; the bytes differ. -/
theorem quantize_keeps_order_lengthFive :
    lengthFive.get 0 ≤ lengthFive.get 1 ∧
      (∀ n, (Descriptor.quantize n lengthFive).bins.get 0 ≤
        (Descriptor.quantize n lengthFive).bins.get 1) ∧
      (Descriptor.quantize .l2 lengthFive).bins.get 0 = 102 ∧
      (Descriptor.quantize .l2 lengthFive).bins.get 1 = 205 ∧
      (Descriptor.quantize .l1Root lengthFive).bins.get 0 = 171 ∧
      (Descriptor.quantize .l1Root lengthFive).bins.get 1 = 241 := by
  have hle : lengthFive.get 0 ≤ lengthFive.get 1 := by decide +kernel
  refine ⟨hle, fun n => quantize_keeps_order n lengthFive 0 1 hle, ?_, ?_, ?_, ?_⟩ <;>
    decide +kernel

end FeatureMatching
