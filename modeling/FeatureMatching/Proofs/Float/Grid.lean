import Mathlib
import FeatureMatching.Numeric.Rounding

/-!
# The values of a float format, counted

The non-negative values of a binary format, in increasing order, are numbered `0, 1, 2, …`, and the
number of `m · 2 ^ e` is linear in both parts: `rank` counts a full binade for every exponent above
the least one, and then the mantissa. Infinity follows the largest finite value. With a sign this
becomes the `position` of a float, an integer, and that is all the IEEE comparison sees
(`compare_eq_compare_position`): two floats that are not NaN compare as their positions do.

The count makes sense for **canonical** pairs, those with a full mantissa or the least exponent.
Every stored float is read as such a pair (`fits_unpack`), and storing one that is too large gives
an infinity (`settle_finite`). All of it holds for any format; two exponent bits are needed where
an overflow has to be told from a subnormal.
-/

set_option autoImplicit false

namespace FeatureMatching.Numeric

open Float.Model (Format UnpackedFloat)
open Float.Model.UnpackedFloat

/-! ## Comparisons -/

section Compare

variable {α β : Type} [LinearOrder α] [LinearOrder β] {a b : α} {c d : β}

/-- Two comparisons agree when both strict orders do. -/
theorem compare_congr (hlt : a < b ↔ c < d) (hgt : b < a ↔ d < c) :
    compare a b = compare c d := by
  rcases lt_trichotomy a b with h | h | h
  · rw [compare_lt_iff_lt.mpr h, compare_lt_iff_lt.mpr (hlt.mp h)]
  · have heq : c = d := le_antisymm (not_lt.mp (mt hgt.mpr h.le.not_gt))
      (not_lt.mp (mt hlt.mpr h.ge.not_gt))
    rw [compare_eq_iff_eq.mpr h, compare_eq_iff_eq.mpr heq]
  · rw [compare_gt_iff_gt.mpr h, compare_gt_iff_gt.mpr (hgt.mp h)]

end Compare

/-! ## Ranks -/

/-- The number of values in a binade. -/
def binade (F : Format) : Nat := 2 ^ F.mantissaBitsWithoutImplicit

theorem binade_pos (F : Format) : 0 < binade F := Nat.two_pow_pos _

/-- The number of values below `mantissa · 2 ^ exponent`. -/
def rank (F : Format) (mantissa : Nat) (exponent : Int) : Nat :=
  (exponent - F.minExponent).toNat * binade F + mantissa

/-- The number of finite non-negative values; the place of infinity. -/
def topRank (F : Format) : Nat := (2 ^ F.exponentBits - 1) * binade F

/-- A mantissa and an exponent that a format can hold, apart from its bound on the exponent. -/
structure Canonical (F : Format) (mantissa : Nat) (exponent : Int) : Prop where
  /-- The mantissa has no bit too many. -/
  mantissa_lt : mantissa < 2 * binade F
  /-- The exponent is not below the least one. -/
  least : F.minExponent ≤ exponent
  /-- The mantissa has no bit too few, unless the exponent cannot be smaller. -/
  full : binade F ≤ mantissa ∨ exponent = F.minExponent

section Order

variable {F : Format} {m n : Nat} {d e : Int}

theorem Canonical.rank_lt_of_exponent_lt (h : Canonical F m d) (h' : Canonical F n e)
    (hlt : d < e) : rank F m d < rank F n e := by
  have hfull : binade F ≤ n := by
    rcases h'.full with hfull | hleast
    · exact hfull
    · have := h.least
      omega
  have hexp : (d - F.minExponent).toNat + 1 ≤ (e - F.minExponent).toNat := by
    have := h.least
    omega
  unfold rank
  calc (d - F.minExponent).toNat * binade F + m
      < (d - F.minExponent).toNat * binade F + 2 * binade F :=
        Nat.add_lt_add_left h.mantissa_lt _
    _ = ((d - F.minExponent).toNat + 1) * binade F + binade F := by ring
    _ ≤ (e - F.minExponent).toNat * binade F + n :=
        Nat.add_le_add (Nat.mul_le_mul_right _ hexp) hfull

theorem Canonical.rank_injective (h : Canonical F m d) (h' : Canonical F n e)
    (heq : rank F m d = rank F n e) : m = n ∧ d = e := by
  rcases lt_trichotomy d e with hlt | rfl | hgt
  · exact absurd heq (Nat.ne_of_lt (h.rank_lt_of_exponent_lt h' hlt))
  · exact ⟨Nat.add_left_cancel heq, rfl⟩
  · exact absurd heq.symm (Nat.ne_of_lt (h'.rank_lt_of_exponent_lt h hgt))

theorem compare_rank (h : Canonical F m d) (h' : Canonical F n e) :
    compare (rank F m d) (rank F n e) = (compare d e).then (compare m n) := by
  rcases lt_trichotomy d e with hlt | rfl | hgt
  · rw [compare_lt_iff_lt.mpr (h.rank_lt_of_exponent_lt h' hlt), compare_lt_iff_lt.mpr hlt]
    rfl
  · rw [compare_eq_iff_eq.mpr (rfl : d = d), Ordering.then]
    unfold rank
    exact compare_congr (Nat.add_lt_add_iff_left) (Nat.add_lt_add_iff_left)
  · rw [compare_gt_iff_gt.mpr (h'.rank_lt_of_exponent_lt h hgt), compare_gt_iff_gt.mpr hgt]
    rfl

end Order

/-! ## Positions -/

/-- The place of a float among all values of its format, negative ones below zero. The two zeros
share place 0; so does a NaN, which has none of its own. -/
def position (F : Format) : UnpackedFloat → Int
  | .infinity sign => sign.apply (topRank F)
  | .notANumber => 0
  | .zero _ => 0
  | .finite sign mantissa exponent _ => sign.apply (rank F mantissa exponent)

/-- The floats that a format can store. -/
def Fits (F : Format) : UnpackedFloat → Prop
  | .finite _ mantissa exponent _ =>
    Canonical F mantissa exponent ∧ rank F mantissa exponent < topRank F
  | _ => True

theorem rank_pos {F : Format} {m : Nat} {e : Int} (h : 0 < m) : 0 < rank F m e :=
  Nat.lt_of_lt_of_le h (Nat.le_add_left _ _)

theorem topRank_pos (F : Format) : 0 < topRank F :=
  Nat.mul_pos (Nat.sub_pos_of_lt (Nat.one_lt_two_pow (Nat.pos_iff_ne_zero.mp F.he)))
    (binade_pos F)

section Bounds

variable {F : Format} {u : UnpackedFloat}

theorem position_le_topRank (hu : Fits F u) : position F u ≤ topRank F := by
  cases u with
  | notANumber | zero s => exact Int.natCast_nonneg _
  | infinity s => cases s <;> simp only [position, Sign.apply] <;> omega
  | finite s m e hm =>
    have hlt := hu.2
    cases s <;> simp only [position, Sign.apply] <;> omega

theorem neg_topRank_le_position (hu : Fits F u) : -(topRank F : Int) ≤ position F u := by
  cases u with
  | notANumber | zero s => exact Int.neg_nonpos_of_nonneg (Int.natCast_nonneg _)
  | infinity s => cases s <;> simp only [position, Sign.apply] <;> omega
  | finite s m e hm =>
    have hlt := hu.2
    cases s <;> simp only [position, Sign.apply] <;> omega

theorem position_lt_topRank (hu : Fits F u) (hfinite : u.isFinite = true) :
    position F u < topRank F := by
  have htop := topRank_pos F
  cases u with
  | notANumber | infinity s => cases hfinite
  | zero s => exact Int.natCast_pos.mpr htop
  | finite s m e hm =>
    have hlt := hu.2
    cases s <;> simp only [position, Sign.apply] <;> omega

theorem neg_topRank_lt_position (hu : Fits F u) (hfinite : u.isFinite = true) :
    -(topRank F : Int) < position F u := by
  have htop := topRank_pos F
  cases u with
  | notANumber | infinity s => cases hfinite
  | zero s => exact Int.neg_neg_of_pos (Int.natCast_pos.mpr htop)
  | finite s m e hm =>
    have hlt := hu.2
    cases s <;> simp only [position, Sign.apply] <;> omega

end Bounds

theorem compare_neg_int (a b : Int) : compare (-a) (-b) = (compare a b).swap := by
  rw [Int.compare_swap]
  exact compare_congr (Int.neg_lt_neg_iff) (Int.neg_lt_neg_iff)

theorem compare_natCast (a b : Nat) : compare (a : Int) (b : Int) = compare a b :=
  compare_congr Int.ofNat_lt Int.ofNat_lt

section Comparison

variable {F : Format} {v : UnpackedFloat} {s : Sign}

theorem compare_of_lt {a b : Int} (h : a < b) : some Ordering.lt = some (compare a b) :=
  congrArg some (compare_lt_iff_lt.mpr h).symm

theorem compare_of_gt {a b : Int} (h : b < a) : some Ordering.gt = some (compare a b) :=
  congrArg some (compare_gt_iff_gt.mpr h).symm

theorem compare_of_eq (a : Int) : some Ordering.eq = some (compare a a) :=
  congrArg some (compare_eq_iff_eq.mpr rfl).symm

theorem compare_infinity (hv : Fits F v) (hnan : v.isNaN = false) :
    (UnpackedFloat.infinity s).compare v =
      some (compare (position F (.infinity s)) (position F v)) := by
  have htop := topRank_pos F
  cases v with
  | notANumber => cases hnan
  | infinity s' =>
    cases s <;> cases s'
    · exact compare_of_eq _
    · exact compare_of_lt (by simp only [position, Sign.apply]; omega)
    · exact compare_of_gt (by simp only [position, Sign.apply]; omega)
    · exact compare_of_eq _
  | zero s' =>
    cases s with
    | negative => exact compare_of_lt (by simp only [position, Sign.apply]; omega)
    | positive => exact compare_of_gt (by simp only [position, Sign.apply]; omega)
  | finite s' m e hm =>
    have hlt := hv.2
    cases s with
    | negative =>
      exact compare_of_lt (by cases s' <;> simp only [position, Sign.apply] <;> omega)
    | positive =>
      exact compare_of_gt (by cases s' <;> simp only [position, Sign.apply] <;> omega)

theorem compare_zero (hnan : v.isNaN = false) :
    (UnpackedFloat.zero s).compare v = some (compare (position F (.zero s)) (position F v)) := by
  have htop := topRank_pos F
  cases v with
  | notANumber => cases hnan
  | infinity s' =>
    cases s' with
    | negative => exact compare_of_gt (by simp only [position, Sign.apply]; omega)
    | positive => exact compare_of_lt (by simp only [position, Sign.apply]; omega)
  | zero s' => exact compare_of_eq _
  | finite s' m e hm =>
    have hrank := rank_pos (F := F) (e := e) hm
    cases s' with
    | negative => exact compare_of_gt (by simp only [position, Sign.apply]; omega)
    | positive => exact compare_of_lt (by simp only [position, Sign.apply]; omega)

/-- Two finite floats of one sign compare as their ranks do, and the negative ones the other way
round. -/
theorem compare_finite {m : Nat} {e : Int} {hm : 0 < m} (hu : Fits F (.finite s m e hm))
    (hv : Fits F v) (hnan : v.isNaN = false) :
    (UnpackedFloat.finite s m e hm).compare v =
      some (compare (position F (.finite s m e hm)) (position F v)) := by
  have hrank := rank_pos (F := F) (e := e) hm
  have hlt := hu.2
  cases v with
  | notANumber => cases hnan
  | infinity s' =>
    cases s' with
    | negative =>
      cases s <;> exact compare_of_gt (by simp only [position, Sign.apply]; omega)
    | positive =>
      cases s <;> exact compare_of_lt (by simp only [position, Sign.apply]; omega)
  | zero s' =>
    cases s with
    | negative => exact compare_of_lt (by simp only [position, Sign.apply]; omega)
    | positive => exact compare_of_gt (by simp only [position, Sign.apply]; omega)
  | finite s' n d hn =>
    have hrank' := rank_pos (F := F) (e := d) hn
    cases s <;> cases s'
    -- Negation turns the order of the ranks round, as the comparison does.
    · rw [UnpackedFloat.compare, position, position, Sign.apply, Sign.apply, compare_neg_int,
        compare_natCast, compare_rank hu.1 hv.1]
    · exact compare_of_lt (by simp only [position, Sign.apply]; omega)
    · exact compare_of_gt (by simp only [position, Sign.apply]; omega)
    · rw [UnpackedFloat.compare, position, position, Sign.apply, Sign.apply, compare_natCast,
        compare_rank hu.1 hv.1]

/-- **The IEEE comparison is the comparison of positions**, for floats that are not NaN. -/
theorem compare_eq_compare_position {u : UnpackedFloat} (hu : Fits F u) (hv : Fits F v)
    (hnu : u.isNaN = false) (hnv : v.isNaN = false) :
    u.compare v = some (compare (position F u) (position F v)) := by
  cases u with
  | notANumber => cases hnu
  | infinity s => exact compare_infinity hv hnv
  | zero s => exact compare_zero hnv
  | finite s m e hm => exact compare_finite hu hv hnv

end Comparison

/-! ## Storing and reading back -/

/-- A float after being stored and read back. -/
def settle (F : Format) (u : UnpackedFloat) : UnpackedFloat := unpack F (pack F u)

section Storage

variable {F : Format}

@[simp] theorem unpackSign_packComponents (s : Sign) (e : BitVec F.exponentBits)
    (m : BitVec F.mantissaBitsWithoutImplicit) :
    unpackSign (packComponents F s e m) = s.toBitVec := by
  ext i hi
  obtain rfl : i = 0 := by omega
  simp [unpackSign, packComponents, BitVec.getLsbD_append, BitVec.getElem_append]

@[simp] theorem ofBitVec_toBitVec (s : Sign) : Sign.ofBitVec s.toBitVec = s := by
  cases s <;> rfl

theorem neg_one_ne_of_toNat_lt {w : Nat} {b : BitVec w} (h : b.toNat + 1 < 2 ^ w) : b ≠ -1#_ := by
  rintro rfl
  rw [BitVec.neg_one_eq_allOnes, BitVec.toNat_allOnes] at h
  omega

theorem toNat_neg_one_add_one {w : Nat} : (-1#w).toNat + 1 = 2 ^ w := by
  have hpow : 0 < 2 ^ w := Nat.two_pow_pos w
  rw [BitVec.neg_one_eq_allOnes, BitVec.toNat_allOnes]
  omega

theorem toNat_add_one_lt_of_ne {w : Nat} {b : BitVec w} (h : b ≠ -1#_) : b.toNat + 1 < 2 ^ w := by
  have hones : (-1#w).toNat + 1 = 2 ^ w := toNat_neg_one_add_one
  have hne : b.toNat ≠ (-1#w).toNat := fun heq => h (BitVec.eq_of_toNat_eq heq)
  have hlt := b.isLt
  omega

theorem ne_zero_of_toNat_pos {w : Nat} {b : BitVec w} (h : 0 < b.toNat) : b ≠ 0#_ := by
  rintro rfl
  simp at h

theorem toNat_pos_of_ne_zero {w : Nat} {b : BitVec w} (h : b ≠ 0#_) : 0 < b.toNat :=
  Nat.pos_of_ne_zero fun hzero => h (BitVec.eq_of_toNat_eq (by simpa using hzero))

theorem toNat_leading_append (f : BitVec F.mantissaBitsWithoutImplicit) :
    (1#1 ++ f).toNat = binade F + f.toNat := by
  rw [BitVec.toNat_append, ← Nat.shiftLeft_add_eq_or_of_lt f.isLt, Nat.shiftLeft_eq]
  simp [binade]

/-- The least exponent is the one whose stored field would be 1. -/
theorem minExponent_add_bias (F : Format) :
    F.minExponent + (F.exponentBias + F.mantissaBitsWithoutImplicit : Nat) = 1 := by
  have hpow : 1 ≤ 2 ^ (F.exponentBits - 1) := Nat.one_le_two_pow
  have hcast : ((2 ^ (F.exponentBits - 1) - 1 : Nat) : Int) = 2 ^ (F.exponentBits - 1) - 1 := by
    push_cast [hpow]
    rfl
  unfold Format.minExponent Format.exponentBias Format.mantissaBits
  push_cast [hcast]
  ring

theorem canonical_of_fields {field fraction : Nat} (hfield : 0 < field)
    (hfraction : fraction < binade F) :
    Canonical F (binade F + fraction)
        (field - (F.exponentBias + F.mantissaBitsWithoutImplicit : Nat)) ∧
      rank F (binade F + fraction)
          (field - (F.exponentBias + F.mantissaBitsWithoutImplicit : Nat)) =
        field * binade F + fraction := by
  have hbias := minExponent_add_bias F
  have hsteps : ((field : Int) - (F.exponentBias + F.mantissaBitsWithoutImplicit : Nat) -
      F.minExponent).toNat = field - 1 := by omega
  refine ⟨⟨by omega, by omega, Or.inl (Nat.le_add_right _ _)⟩, ?_⟩
  unfold rank
  rw [hsteps, ← Nat.add_assoc, ← Nat.succ_mul, Nat.succ_eq_add_one, Nat.sub_add_cancel hfield]

theorem canonical_of_fraction {fraction : Nat} (hfraction : fraction < binade F) :
    Canonical F fraction F.minExponent ∧ rank F fraction F.minExponent = fraction := by
  refine ⟨⟨by omega, Int.le_refl _, Or.inr rfl⟩, ?_⟩
  simp [rank]

/-- **What a bit pattern reads as**, by its exponent field: an infinity or a NaN when the field is
full, a zero or a subnormal when it is empty, a normal number in between. The rank of a number is
the two fields read as one. -/
inductive Reads (b : BitVec F.numBits) : UnpackedFloat → Prop where
  | notANumber (full : (unpackExponent b).toNat + 1 = 2 ^ F.exponentBits) : Reads b .notANumber
  | infinity (full : (unpackExponent b).toNat + 1 = 2 ^ F.exponentBits) :
      Reads b (.infinity (Sign.ofBitVec (unpackSign b)))
  | zero (empty : (unpackExponent b).toNat * binade F + (unpackMantissa b).toNat = 0) :
      Reads b (.zero (Sign.ofBitVec (unpackSign b)))
  | finite {m : Nat} {e : Int} (hm : 0 < m)
      (below : (unpackExponent b).toNat + 1 < 2 ^ F.exponentBits) (canonical : Canonical F m e)
      (rank_eq : rank F m e = (unpackExponent b).toNat * binade F + (unpackMantissa b).toNat) :
      Reads b (.finite (Sign.ofBitVec (unpackSign b)) m e hm)

theorem reads_unpack (b : BitVec F.numBits) : Reads b (unpack F b) := by
  have hbias := minExponent_add_bias F
  have hlt : (unpackMantissa b).toNat < binade F := (unpackMantissa b).isLt
  unfold unpack
  by_cases hones : unpackExponent b = -1#_
  · have hfull : (unpackExponent b).toNat + 1 = 2 ^ F.exponentBits := by
      rw [hones]
      exact toNat_neg_one_add_one
    simp only [hones, if_true]
    split
    · exact .infinity hfull
    · exact .notANumber hfull
  · have hbelow := toNat_add_one_lt_of_ne hones
    simp only [hones, if_false]
    by_cases hempty : unpackExponent b = 0#_
    · have hfield : (unpackExponent b).toNat = 0 := by
        rw [hempty]
        exact BitVec.toNat_zero
      rw [if_pos hempty]
      by_cases hzero : unpackMantissa b = 0#_
      · rw [dif_pos hzero]
        refine .zero ?_
        rw [hfield, hzero, Nat.zero_mul, Nat.zero_add]
        exact BitVec.toNat_zero
      · obtain ⟨hcanonical, hrank⟩ := canonical_of_fraction hlt
        have hexponent : ((unpackExponent b).toNat : Int) -
            (F.exponentBias + F.mantissaBitsWithoutImplicit) + 1 = F.minExponent := by omega
        simp only [hzero, dite_false, hexponent]
        refine .finite _ hbelow hcanonical ?_
        rw [hfield, Nat.zero_mul, Nat.zero_add]
        exact hrank
    · obtain ⟨hcanonical, hrank⟩ := canonical_of_fields (toNat_pos_of_ne_zero hempty) hlt
      -- The leading bit is not stored; a full field would have been caught before.
      simp only [hempty, if_false, toNat_leading_append]
      exact .finite _ hbelow hcanonical hrank

/-- **Reading any bit pattern gives a float that fits.** -/
theorem fits_unpack (b : BitVec F.numBits) : Fits F (unpack F b) := by
  have h := reads_unpack b
  generalize unpack F b = u at h ⊢
  cases h with
  | notANumber _ | infinity _ | zero _ => trivial
  | finite hm below canonical rank_eq =>
    refine ⟨canonical, ?_⟩
    rw [rank_eq]
    calc (unpackExponent b).toNat * binade F + (unpackMantissa b).toNat
        < (unpackExponent b).toNat * binade F + binade F :=
          Nat.add_lt_add_left (unpackMantissa b).isLt _
      _ = ((unpackExponent b).toNat + 1) * binade F := by ring
      _ ≤ topRank F := Nat.mul_le_mul_right _ (by omega)

/-! ### Bit patterns as numbers -/

theorem toNat_unpackMantissa (b : BitVec F.numBits) :
    (unpackMantissa b).toNat = b.toNat % binade F := by
  have hm := F.hm
  have hwidth : F.mantissaBitsWithoutImplicit - 1 - 0 + 1 = F.mantissaBitsWithoutImplicit := by
    omega
  simp only [unpackMantissa, BitVec.toNat_cast, BitVec.extractLsb_toNat, Nat.shiftRight_zero,
    hwidth]
  rfl

theorem toNat_unpackExponent (b : BitVec F.numBits) :
    (unpackExponent b).toNat = b.toNat / binade F % 2 ^ F.exponentBits := by
  have he := F.he
  have hwidth : F.mantissaBitsWithoutImplicit + F.exponentBits - 1 -
      F.mantissaBitsWithoutImplicit + 1 = F.exponentBits := by
    omega
  simp only [unpackExponent, BitVec.toNat_cast, BitVec.extractLsb_toNat, hwidth,
    Nat.shiftRight_eq_div_pow]
  rfl

theorem toNat_unpackSign (b : BitVec F.numBits) :
    (unpackSign b).toNat = b.toNat / (2 ^ F.exponentBits * binade F) % 2 := by
  simp only [unpackSign, BitVec.toNat_cast, BitVec.extractLsb_toNat, Nat.sub_self,
    Nat.shiftRight_eq_div_pow, Nat.pow_add, binade, Nat.zero_add, Nat.pow_one]
  rw [Nat.mul_comm]

/-- **The number of a bit pattern below infinity's is the position of what it reads as.** -/
theorem position_unpack {b : BitVec F.numBits} (h : b.toNat < topRank F) :
    (unpack F b).isFinite = true ∧ position F (unpack F b) = b.toNat := by
  have hbinade := binade_pos F
  have hfield : b.toNat / binade F < 2 ^ F.exponentBits - 1 :=
    (Nat.div_lt_iff_lt_mul hbinade).mpr h
  have hexponent : (unpackExponent b).toNat = b.toNat / binade F := by
    rw [toNat_unpackExponent, Nat.mod_eq_of_lt (Nat.lt_of_lt_of_le hfield (Nat.sub_le _ _))]
  have hsign : Sign.ofBitVec (unpackSign b) = .positive := by
    have hword : b.toNat < 2 ^ F.exponentBits * binade F :=
      Nat.lt_of_lt_of_le h (Nat.mul_le_mul_right _ (Nat.sub_le _ _))
    refine if_pos (BitVec.eq_of_toNat_eq ?_)
    rw [toNat_unpackSign, Nat.div_eq_of_lt hword]
    rfl
  have hfields : (unpackExponent b).toNat * binade F + (unpackMantissa b).toNat = b.toNat := by
    rw [hexponent, toNat_unpackMantissa, Nat.div_add_mod']
  have hreads := reads_unpack b
  generalize unpack F b = u at hreads ⊢
  cases hreads with
  | notANumber full | infinity full => omega
  | zero empty => exact ⟨rfl, by simp only [position]; omega⟩
  | finite hm below canonical rank_eq =>
    refine ⟨rfl, ?_⟩
    simp only [position, hsign, Sign.apply]
    omega

/-! ### Large floats -/

theorem topRank_le_iff (hF : 2 ≤ F.exponentBits) {m : Nat} {e : Int}
    (h : Canonical F m e) :
    topRank F ≤ rank F m e ↔ 2 ^ F.exponentBits ≤ (e - F.minExponent).toNat + 2 := by
  have hfour : 2 ^ 2 ≤ 2 ^ F.exponentBits := Nat.pow_le_pow_right (by decide) hF
  have hbinade := binade_pos F
  constructor
  · intro hle
    by_contra hfew
    have hsteps : (e - F.minExponent).toNat + 2 ≤ 2 ^ F.exponentBits - 1 := by omega
    have hlt := h.mantissa_lt
    have := Nat.mul_le_mul_right (binade F) hsteps
    unfold topRank rank at hle
    rw [Nat.add_mul] at this
    omega
  · intro hmany
    have hfull : binade F ≤ m := by
      rcases h.full with hfull | hleast
      · exact hfull
      · omega
    have hsteps : 2 ^ F.exponentBits - 1 ≤ (e - F.minExponent).toNat + 1 := by omega
    have := Nat.mul_le_mul_right (binade F) hsteps
    unfold topRank rank
    rw [Nat.add_mul] at this
    omega

theorem empty_field_ne : (0#(F.exponentBits)) ≠ -1#_ := by
  refine neg_one_ne_of_toNat_lt ?_
  simpa using Nat.one_lt_two_pow (Nat.pos_iff_ne_zero.mp F.he)

@[simp] theorem settle_infinity (s : Sign) : settle F (.infinity s) = .infinity s := by
  simp [settle, unpack, pack, packedInfinity]

@[simp] theorem settle_notANumber : settle F .notANumber = .notANumber := by
  have hquiet :
      1#(F.mantissaBitsWithoutImplicit) <<< (F.mantissaBitsWithoutImplicit - 1) ≠ 0#_ := by
    refine ne_zero_of_toNat_pos ?_
    have hm := F.hm
    have hlt : 2 ^ (F.mantissaBitsWithoutImplicit - 1) < 2 ^ F.mantissaBitsWithoutImplicit :=
      Nat.pow_lt_pow_right (by decide) (by omega)
    rw [BitVec.toNat_shiftLeft, BitVec.toNat_one hm, Nat.shiftLeft_eq, Nat.one_mul,
      Nat.mod_eq_of_lt hlt]
    exact Nat.two_pow_pos _
  simp [settle, unpack, pack, packedNaN, hquiet]

@[simp] theorem settle_zero (s : Sign) : settle F (.zero s) = .zero s := by
  simp [settle, unpack, pack, packedZero, F.he.ne']

theorem unpack_normal {s : Sign} {field m : Nat} (hm : 0 < m) (hpos : 0 < field)
    (hfield : field + 1 < 2 ^ F.exponentBits) (hfull : binade F ≤ m)
    (hlt : m < 2 * binade F) :
    unpack F (packComponents F s (BitVec.ofNat _ field) (BitVec.ofNat _ m)) =
      .finite s m (field - (F.exponentBias + F.mantissaBitsWithoutImplicit)) hm := by
  have hword : (BitVec.ofNat F.exponentBits field).toNat = field := by
    rw [BitVec.toNat_ofNat, Nat.mod_eq_of_lt (by omega)]
  have hones : BitVec.ofNat F.exponentBits field ≠ -1#_ := neg_one_ne_of_toNat_lt (by omega)
  have hempty : BitVec.ofNat F.exponentBits field ≠ 0#_ := ne_zero_of_toNat_pos (by omega)
  have hmantissa : (1#1 ++ BitVec.ofNat F.mantissaBitsWithoutImplicit m).toNat = m := by
    have hmod : m % binade F = m - binade F := by
      rw [Nat.mod_eq_sub_mod hfull, Nat.mod_eq_of_lt (by omega)]
    rw [toNat_leading_append, BitVec.toNat_ofNat]
    change binade F + m % binade F = m
    omega
  simp only [unpack, unpackExponent_packComponents, unpackMantissa_packComponents,
    unpackSign_packComponents, ofBitVec_toBitVec, hones, hempty, if_false, hword, hmantissa]

theorem unpack_subnormal {s : Sign} {m : Nat} (hm : 0 < m) (hlt : m < binade F) :
    unpack F (packComponents F s 0#_ (BitVec.ofNat _ m)) =
      .finite s m F.minExponent hm := by
  have hbias := minExponent_add_bias F
  have hfraction : (BitVec.ofNat F.mantissaBitsWithoutImplicit m).toNat = m := by
    rw [BitVec.toNat_ofNat]
    exact Nat.mod_eq_of_lt hlt
  have hzero : BitVec.ofNat F.mantissaBitsWithoutImplicit m ≠ 0#_ :=
    ne_zero_of_toNat_pos (by omega)
  simp only [unpack, unpackExponent_packComponents, unpackMantissa_packComponents,
    unpackSign_packComponents, ofBitVec_toBitVec, empty_field_ne, hzero, if_false, if_true,
    dite_false, hfraction, BitVec.toNat_zero]
  congr 1
  omega

theorem log2_add_one_eq_iff {m : Nat} (hm : 0 < m) (h : m < 2 * binade F) :
    m.log2 + 1 = F.mantissaBits ↔ binade F ≤ m := by
  have hlow : F.mantissaBitsWithoutImplicit ≤ m.log2 ↔ binade F ≤ m := Nat.le_log2 hm.ne'
  have hhigh : m.log2 < F.mantissaBitsWithoutImplicit + 1 := by
    refine (Nat.log2_lt hm.ne').mpr ?_
    rw [Nat.pow_succ, Nat.mul_comm]
    exact h
  rw [← hlow]
  unfold Format.mantissaBits
  omega

/-- **Storing a finite float keeps it, or gives an infinity if it is too large.** -/
theorem settle_finite (hF : 2 ≤ F.exponentBits) {s : Sign} {m : Nat} {e : Int} (hm : 0 < m)
    (h : Canonical F m e) :
    settle F (.finite s m e hm) =
      if rank F m e < topRank F then .finite s m e hm else .infinity s := by
  have hbias := minExponent_add_bias F
  have hleast := h.least
  have htop := topRank_le_iff hF h
  have hlog := log2_add_one_eq_iff hm h.mantissa_lt
  unfold settle
  by_cases hover : 2 ^ F.exponentBits ≤
      (e + F.exponentBias + F.mantissaBitsWithoutImplicit).toNat + 1
  · rw [if_neg (by omega)]
    simp only [pack, hover, if_true]
    exact settle_infinity s
  · rw [if_pos (by omega)]
    simp only [pack, hover, if_false]
    by_cases hfull : binade F ≤ m
    · rw [if_pos (hlog.mpr hfull), unpack_normal hm (by omega) (by omega) hfull h.mantissa_lt]
      congr 1
      omega
    · obtain rfl := h.full.resolve_left hfull
      rw [if_neg (mt hlog.mp hfull), unpack_subnormal hm (Nat.lt_of_not_le hfull)]

/-- A float that fits is stored as it is. -/
theorem settle_of_fits (hF : 2 ≤ F.exponentBits) {u : UnpackedFloat} (hu : Fits F u) :
    settle F u = u := by
  cases u with
  | notANumber => exact settle_notANumber
  | infinity s => exact settle_infinity s
  | zero s => exact settle_zero s
  | finite s m e hm => rw [settle_finite hF hm hu.1, if_pos hu.2]

end Storage

end FeatureMatching.Numeric
