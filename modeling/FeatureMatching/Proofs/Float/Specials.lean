import Mathlib
import FeatureMatching.Proofs.Float.Binary

/-!
# What is not finite stays so, and which results have no sign

Two things can be said of binary64 results without a word about rounding. A result that is finite
had finite operands: an infinity or a NaN that enters a sum, a product or the numerator of a
quotient comes out as one or the other (`isFinite_of_add64` and its companions). And squares, sums
of squares and quotients of these have a clear sign bit, zeros included, unless they are NaN
(`HasSign`).

The second fact is what positions do not show, since the two zeros share one. With it the position
of a result that is not a NaN determines the result bit for bit (`eq_of_position64_eq`).
-/

set_option autoImplicit false

namespace FeatureMatching.Numeric

open Float.Model (Format UnpackedFloat)
open Float.Model.UnpackedFloat

/-! ## Finite results -/

section Finite

variable {F : Format} {u v : UnpackedFloat}

theorem isFinite_of_settle (h : (settle F u).isFinite = true) : u.isFinite = true := by
  cases u with
  | notANumber => simp [UnpackedFloat.isFinite] at h
  | infinity s => simp [UnpackedFloat.isFinite] at h
  | zero s | finite s m e hm => rfl

theorem isFinite_of_add (h : (add F u v).isFinite = true) :
    u.isFinite = true ∧ v.isFinite = true := by
  cases u with
  | notANumber => cases v <;> cases h
  | infinity s =>
    cases v with
    | infinity s' =>
      -- Two infinities add up to one of them or to a NaN.
      simp only [add] at h
      split at h <;> cases h
    | notANumber | zero s' | finite s' n e hn => cases h
  | zero s | finite s m d hm =>
    cases v with
    | notANumber | infinity s' => cases h
    | zero s' | finite s' n e hn => exact ⟨rfl, rfl⟩

theorem unpacked_sub_eq_add_neg (u v : UnpackedFloat) : sub F u v = add F u v.neg := by
  cases u with
  | notANumber | infinity s | zero s => cases v <;> rfl
  | finite s m d hm =>
    cases v with
    | notANumber | infinity s' | zero s' => rfl
    | finite s' n e hn =>
      have hneg (k : Nat) : (-s').apply (k : Int) = -s'.apply (k : Int) := by
        cases s' with
        | positive => rfl
        | negative => exact (Int.neg_neg _).symm
      simp only [sub, add, UnpackedFloat.neg, hneg, Int.sub_eq_add_neg]

theorem isFinite_of_sub (h : (sub F u v).isFinite = true) :
    u.isFinite = true ∧ v.isFinite = true := by
  rw [unpacked_sub_eq_add_neg] at h
  obtain ⟨hu, hv⟩ := isFinite_of_add h
  refine ⟨hu, ?_⟩
  cases v <;> exact hv

theorem isFinite_of_mul (h : (mul F u v).isFinite = true) :
    u.isFinite = true ∧ v.isFinite = true := by
  cases u with
  | notANumber => cases v <;> cases h
  | infinity s => cases v <;> cases h
  | zero s | finite s m d hm =>
    cases v with
    | notANumber | infinity s' => cases h
    | zero s' | finite s' n e hn => exact ⟨rfl, rfl⟩

/-- The denominator may be infinite: a finite number over an infinity is a zero. -/
theorem isFinite_of_div (h : (div F u v).isFinite = true) : u.isFinite = true := by
  cases u with
  | notANumber | infinity s => cases v <;> cases h
  | zero s | finite s m d hm => rfl

end Finite

section Finite64

variable {x y : Float}

theorem isFinite_of_add64 (h : (x + y).isFinite = true) :
    x.isFinite = true ∧ y.isFinite = true :=
  isFinite_of_add (isFinite_of_settle (F := Format.binary64) h)

theorem isFinite_of_sub64 (h : (x - y).isFinite = true) :
    x.isFinite = true ∧ y.isFinite = true :=
  isFinite_of_sub (isFinite_of_settle (F := Format.binary64) h)

theorem isFinite_of_mul64 (h : (x * y).isFinite = true) :
    x.isFinite = true ∧ y.isFinite = true :=
  isFinite_of_mul (isFinite_of_settle (F := Format.binary64) h)

theorem isFinite_of_div64 (h : (x / y).isFinite = true) : x.isFinite = true :=
  isFinite_of_div (isFinite_of_settle (F := Format.binary64) h)

theorem isNaN_of_isFinite64 (h : x.isFinite = true) : x.isNaN = false :=
  isNaN_of_finite (u := unpack64 x) h

theorem lt_infinity64_of_isFinite (h : x.isFinite = true) : x < infinity64 := by
  have htop : position64 infinity64 = topRank Format.binary64 := by decide +kernel
  refine lt_iff_position64.mpr ⟨⟨isNaN_of_isFinite64 h, by decide +kernel⟩, ?_⟩
  rw [htop]
  exact position_lt_topRank (fits_unpack64 x) h

theorem ne_zero_of_not_isFinite (h : x.isFinite = false) : (x == 0) = false := by
  rw [Bool.eq_false_iff, Ne, beq_iff_position64]
  rintro ⟨⟨hnan, -⟩, hposition⟩
  have hzero : position64 0 = 0 := rfl
  have htop := topRank_pos Format.binary64
  have hfinite : x.isFinite = true :=
    isFinite_of_position_lt (F := Format.binary64) (u := unpack64 x) hnan
      (by rw [show position Format.binary64 (unpack64 x) = 0 from hposition.trans hzero]; omega)
      (by rw [show position Format.binary64 (unpack64 x) = 0 from hposition.trans hzero]; omega)
  rw [h] at hfinite
  cases hfinite

end Finite64

/-! ## Signs -/

/-- A float with the given sign bit. The sign of a NaN says nothing, so a NaN counts. -/
def HasSign (s : Sign) : UnpackedFloat → Prop
  | .infinity s' | .zero s' | .finite s' _ _ _ => s' = s
  | .notANumber => True

section Signs

variable {F : Format} {u v : UnpackedFloat} {s : Sign}

theorem hasSign_unpack (b : BitVec F.numBits) :
    HasSign (Sign.ofBitVec (unpackSign b)) (unpack F b) := by
  have h := reads_unpack b
  generalize unpack F b = u at h ⊢
  cases h with
  | notANumber _ => trivial
  | infinity _ | zero _ | finite _ _ _ _ => rfl

/-- Storing a float keeps its sign, also when it overflows. -/
theorem HasSign.settle (h : HasSign s u) : HasSign s (settle F u) := by
  cases u with
  | notANumber =>
    rw [settle_notANumber]
    trivial
  | infinity s' => simpa using h
  | zero s' => simpa using h
  | finite s' m e hm =>
    obtain rfl : s' = s := h
    have hbit : unpackSign (pack F (.finite s' m e hm)) = s'.toBitVec := by
      simp only [pack, packedInfinity]
      split
      · simp
      · split <;> simp
    have hsign := hasSign_unpack (pack F (.finite s' m e hm))
    rw [hbit, ofBitVec_toBitVec] at hsign
    exact hsign

theorem hasSign_roundWithAccuracy (m : Nat) (e : Int) (accuracy : Accuracy) :
    HasSign s (roundWithAccuracy F s m e accuracy) := by
  simp only [roundWithAccuracy]
  split <;> rfl

theorem hasSign_normalize {mantissa : Int} (h : 0 < mantissa) (e : Int) (zeroSign : Sign) :
    HasSign .positive (UnpackedFloat.normalize F mantissa e zeroSign) := by
  unfold UnpackedFloat.normalize
  rw [compare_gt_iff_gt.mpr h]
  exact hasSign_roundWithAccuracy _ _ _

theorem hasSign_square : HasSign .positive (mul F u u) := by
  cases u with
  | notANumber => trivial
  | infinity s | zero s => cases s <;> rfl
  | finite s m e hm => cases s <;> exact hasSign_roundWithAccuracy _ _ _

theorem HasSign.add (hu : HasSign .positive u) (hv : HasSign .positive v) :
    HasSign .positive (add F u v) := by
  cases u with
  | notANumber => cases v <;> trivial
  | infinity s =>
    obtain rfl : s = .positive := hu
    cases v with
    | notANumber => trivial
    | infinity s' =>
      obtain rfl : s' = .positive := hv
      rfl
    | zero s' | finite s' n e hn => rfl
  | zero s =>
    obtain rfl : s = .positive := hu
    cases v with
    | notANumber => trivial
    | zero s' =>
      obtain rfl : s' = .positive := hv
      rfl
    | infinity s' | finite s' n e hn => exact hv
  | finite s m d hm =>
    obtain rfl : s = .positive := hu
    cases v with
    | notANumber => trivial
    | infinity s' => exact hv
    | zero s' => rfl
    | finite s' n e hn =>
      obtain rfl : s' = .positive := hv
      refine hasSign_normalize ?_ _ _
      have hleft : 0 < m <<< (d - min d e).toNat := by
        rw [Nat.shiftLeft_eq]
        positivity
      exact Int.natCast_pos.mpr (Nat.add_pos_left hleft (n <<< (e - min d e).toNat))

theorem HasSign.div (hu : HasSign .positive u) (hv : HasSign .positive v) :
    HasSign .positive (div F u v) := by
  cases u with
  | notANumber => cases v <;> trivial
  | infinity s | zero s =>
    obtain rfl : s = .positive := hu
    cases v with
    | notANumber => trivial
    | infinity s' | zero s' | finite s' n e hn =>
      obtain rfl : s' = .positive := hv
      first | rfl | trivial
  | finite s m d hm =>
    obtain rfl : s = .positive := hu
    cases v with
    | notANumber => trivial
    | infinity s' | zero s' =>
      obtain rfl : s' = .positive := hv
      rfl
    | finite s' n e hn =>
      obtain rfl : s' = .positive := hv
      exact hasSign_roundWithAccuracy _ _ _

end Signs

section Signs64

variable {x y : Float}

theorem hasSign_square64 (x : Float) : HasSign .positive (unpack64 (x * x)) :=
  (hasSign_square (F := Format.binary64)).settle

theorem hasSign_add64 (hx : HasSign .positive (unpack64 x)) (hy : HasSign .positive (unpack64 y)) :
    HasSign .positive (unpack64 (x + y)) :=
  (hx.add (F := Format.binary64) hy).settle

theorem hasSign_div64 (hx : HasSign .positive (unpack64 x)) (hy : HasSign .positive (unpack64 y)) :
    HasSign .positive (unpack64 (x / y)) :=
  (hx.div (F := Format.binary64) hy).settle

end Signs64

theorem HasSign.position_nonneg {F : Format} {u : UnpackedFloat} (h : HasSign .positive u) :
    0 ≤ position F u := by
  cases u with
  | notANumber | zero s => exact Int.le_refl 0
  | infinity s | finite s m e hm =>
    obtain rfl : s = .positive := h
    exact Int.natCast_nonneg _

/-- Without a sign, what is not above a finite number is finite. -/
theorem isFinite_of_le64 {x y : Float} (hx : HasSign .positive (unpack64 x)) (h : x ≤ y)
    (hy : y.isFinite = true) : x.isFinite = true := by
  obtain ⟨⟨hnan, -⟩, hle⟩ := le_iff_position64.mp h
  have hlow := hx.position_nonneg (F := Format.binary64)
  have hhigh := position_lt_topRank (fits_unpack64 y) hy
  unfold position64 at hle
  exact isFinite_of_position_lt (F := Format.binary64) (u := unpack64 x) hnan (by omega) (by omega)

/-! ## Bits -/

theorem unpack64_injective {x y : Float} (h : unpack64 x = unpack64 y) : x = y := by
  obtain ⟨⟨bits, valid⟩⟩ := x
  obtain ⟨⟨bits', valid'⟩⟩ := y
  have hbits := (unpack_inj_of_valid valid valid').mp h
  obtain rfl : bits = bits' := UInt64.toBitVec_inj.mp hbits
  rfl

/-- The sign bit of a finite value. -/
theorem toBits_lt_of_hasSign {x : Float} (hfinite : x.isFinite = true)
    (h : HasSign .positive (unpack64 x)) : x.toBits < 0x8000000000000000 := by
  have hreads : Reads (F := Format.binary64) x.toBits.toBitVec (unpack64 x) := reads_unpack _
  have hbit : @unpackSign Format.binary64 x.toBits.toBitVec = 0#1 := by
    by_contra hne
    have hfinite' : (unpack64 x).isFinite = true := hfinite
    generalize unpack64 x = u at hreads h hfinite'
    cases hreads with
    | notANumber _ | infinity _ => cases hfinite'
    | zero _ | finite _ _ _ _ => simp [HasSign, Sign.ofBitVec, hne] at h
  have hfield := congrArg BitVec.toNat hbit
  rw [toNat_unpackSign] at hfield
  have hword : x.toBits.toNat < 2 ^ 64 := x.toBits.toNat_lt
  have hsplit : 2 ^ Format.binary64.exponentBits * binade Format.binary64 = 2 ^ 63 := rfl
  rw [hsplit, UInt64.toNat_toBitVec, BitVec.toNat_zero] at hfield
  rw [UInt64.lt_iff_toNat_lt]
  show x.toBits.toNat < 2 ^ 63
  omega

/-- Of the floats at position 0 only the positive zero has a clear sign and is no NaN. -/
theorem HasSign.eq_zero_of_position {F : Format} {u : UnpackedFloat} (h : HasSign .positive u)
    (hnan : u.isNaN = false) (hposition : position F u = 0) : u = .zero .positive := by
  have htop := topRank_pos F
  cases u with
  | notANumber => cases hnan
  | infinity s => cases s <;> simp only [position, Sign.apply] at hposition <;> omega
  | zero s => rw [show s = .positive from h]
  | finite s m e hm => exact absurd hposition (position_ne_zero hm)

/-- **Without a sign the position is everything.** -/
theorem eq_of_position64_eq {x y : Float} (hx : HasSign .positive (unpack64 x))
    (hy : HasSign .positive (unpack64 y)) (hnx : x.isNaN = false) (hny : y.isNaN = false)
    (h : position64 x = position64 y) : x = y := by
  refine unpack64_injective ?_
  by_cases hzero : position64 y = 0
  · have hzero' : position64 x = 0 := h.trans hzero
    unfold position64 at hzero hzero'
    rw [hx.eq_zero_of_position hnx hzero', hy.eq_zero_of_position hny hzero]
  · exact eq_of_position_eq (F := Format.binary64) (fits_unpack64 x) (fits_unpack64 y) hnx hny
      hzero h

/-! ## Infinite denominators -/

section InfiniteDenominator

variable {w x : Float}

theorem not_isFinite_of_isInf (hw : w.isInf = true) : w.isFinite = false := by
  have hinf : (unpack64 w).isInf = true := hw
  show (unpack64 w).isFinite = false
  cases hv : unpack64 w with
  | infinity s | notANumber => rfl
  | zero s | finite s m e hm =>
    rw [hv] at hinf
    cases hinf

/-- A finite number over an infinity is a zero. -/
theorem unpack64_div_of_isInf (hx : x.isFinite = true) (hw : w.isInf = true) :
    ∃ s, unpack64 (x / w) = .zero s := by
  have hquotient : unpack64 (x / w) =
      settle .binary64 (UnpackedFloat.div .binary64 (unpack64 x) (unpack64 w)) :=
    rfl
  have hfinite : (unpack64 x).isFinite = true := hx
  have hinf : (unpack64 w).isInf = true := hw
  rw [hquotient]
  cases hv : unpack64 w with
  | notANumber | zero s' | finite s' n e hn =>
    rw [hv] at hinf
    cases hinf
  | infinity s' =>
    cases hu : unpack64 x with
    | notANumber | infinity s =>
      rw [hu] at hfinite
      cases hfinite
    | zero s | finite s m e hm => exact ⟨_, settle_zero _⟩

/-- Any other number over what is not finite is a NaN, and so is anything over a NaN. -/
theorem not_isFinite_div (hw : w.isFinite = false)
    (h : ¬(w.isInf = true ∧ x.isFinite = true)) : (x / w).isFinite = false := by
  rw [Bool.eq_false_iff]
  intro hquotient
  have hx := isFinite_of_div64 hquotient
  have hquotient' : (UnpackedFloat.div .binary64 (unpack64 x) (unpack64 w)).isFinite = true :=
    isFinite_of_settle (F := .binary64) hquotient
  have hunpacked : (unpack64 w).isFinite = false := hw
  refine h ⟨?_, hx⟩
  show (unpack64 w).isInf = true
  cases hv : unpack64 w with
  | infinity s => rfl
  | notANumber =>
    rw [hv] at hquotient'
    cases hu : unpack64 x <;> rw [hu] at hquotient' <;> cases hquotient'
  | zero s | finite s m e hm =>
    rw [hv] at hunpacked
    cases hunpacked

/-- Subtracting from a zero changes the sign at most, and squaring forgets it. -/
theorem square_zero_sub {s : Sign} (hw : unpack64 w = .zero s) :
    (w - x) * (w - x) = x * x := by
  have hfits := fits_unpack64 x
  have hdifference : unpack64 (w - x) =
      settle .binary64 (UnpackedFloat.sub .binary64 (unpack64 w) (unpack64 x)) := rfl
  refine unpack64_injective ?_
  show settle .binary64 (UnpackedFloat.mul .binary64 (unpack64 (w - x)) (unpack64 (w - x))) =
    settle .binary64 (UnpackedFloat.mul .binary64 (unpack64 x) (unpack64 x))
  congr 1
  rw [hdifference, hw]
  cases hu : unpack64 x with
  | notANumber =>
    simp only [UnpackedFloat.sub, settle_notANumber]
  | infinity s' =>
    simp only [UnpackedFloat.sub, settle_infinity, UnpackedFloat.mul]
    cases s' <;> rfl
  | zero s' =>
    obtain ⟨s'', hzero⟩ : ∃ s'', UnpackedFloat.sub .binary64 (.zero s) (.zero s') = .zero s'' := by
      cases s <;> cases s' <;> exact ⟨_, rfl⟩
    rw [hzero, settle_zero]
    cases s'' <;> cases s' <;> rfl
  | finite s' m e hm =>
    rw [hu] at hfits
    -- The difference is `x` with its sign changed, which fits because `x` does.
    have hopposite : settle .binary64 (.finite (-s') m e hm) = .finite (-s') m e hm :=
      settle_of_fits (by decide) hfits
    simp only [UnpackedFloat.sub, hopposite, UnpackedFloat.mul]
    cases s' <;> rfl

end InfiniteDenominator

end FeatureMatching.Numeric
