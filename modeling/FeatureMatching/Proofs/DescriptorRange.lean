import Mathlib
import FeatureMatching.Proofs.Float.Negation
import FeatureMatching.Proofs.MaskedEntries
import FeatureMatching.Proofs.NormRange

/-!
# Which descriptors keep a byte

A descriptor of unit length has a bin of at least `1 / √128`, which is a byte of 45. Normalization
gives that length only as far as the norm can be computed. For a descriptor with a positive bin two
things can go wrong: the sum overflows, and every quotient by the infinite norm is zero; or every
square underflows, and the norm is zero, as it is for the zero descriptor. In both cases no byte is
left, and in no other (`byte_left_iff_norm_in_range`).

In between the largest bin keeps its byte. The sum of 128 terms is at most 128 times the largest
one, apart from a factor that rounding adds at each step (`sumBound`), and the quotient of the
largest bin by the norm is bounded from that. Only the squares of bins below `2 ^ -63` may be
rounded up by more than that factor, to twice their value at most.
-/

set_option autoImplicit false

namespace FeatureMatching

open Numeric
open Float.Model.UnpackedFloat

/-! ## The bins of a descriptor -/

theorem forall_mem_toList {α : Type} {n : Nat} {p : α → Prop} (values : Vector α n) :
    (∀ v ∈ values.toList, p v) ↔ ∀ k, p (values.get k) := by
  constructor
  · intro h k
    exact h _ (by simp [Vector.get_eq_getElem])
  · intro h v hv
    obtain ⟨i, hi, rfl⟩ := List.mem_iff_getElem.mp hv
    simpa [Vector.get_eq_getElem] using h ⟨i, by simpa using hi⟩

namespace Normalization

section Raw

variable {n : Normalization} {raw : Vector Float32 binCount}

theorem sum_le (hfinite : (sum n.summand raw.toList).isFinite = true) {a : ℚ}
    (hterms : ∀ k, value32 (n.summand (raw.get k)) ≤ a) (ha : 0 ≤ a) :
    value32 (sum n.summand raw.toList) ≤ 129 * a := by
  have hbound := sumFrom_le n.hasSign_summand hfinite le_rfl ((forall_mem_toList raw).mpr hterms)
  rw [Vector.length_toList, value32_zero] at hbound
  exact hbound.trans (sumBound_binCount_le ha)

theorem isFinite_square_of_norm (hfinite : (norm .l2 raw.toList).isFinite = true)
    (k : Fin binCount) : (raw.get k * raw.get k).isFinite = true :=
  (forall_mem_toList raw).mp
    (isFinite_of_sumFrom ((isFinite_norm_iff .l2 raw.toList).mp hfinite)).2 k

end Raw

/-- The size of the bins up to which the norm does not overflow. -/
def ceiling : Normalization → ℚ
  | .l2 => 2 ^ (60 : Int)
  | .l1Root => 2 ^ (120 : Int)

end Normalization

/-! ## Raw descriptors -/

/-- A raw descriptor with a length: no bin is negative, infinite or a NaN, and one is positive. -/
structure Usable (raw : Vector Float32 binCount) : Prop where
  isFinite : ∀ k, (raw.get k).isFinite = true
  nonneg : ∀ k, 0 ≤ raw.get k
  exists_pos : ∃ k, 0 < raw.get k

namespace Usable

variable {raw : Vector Float32 binCount} (h : Usable raw)

include h

theorem value32_nonneg (k : Fin binCount) : 0 ≤ value32 (raw.get k) :=
  (le_iff_value32 (x := 0) rfl (h.isFinite k)).mp (h.nonneg k)

theorem exists_value32_pos : ∃ k, 0 < value32 (raw.get k) := by
  obtain ⟨k, hk⟩ := h.exists_pos
  exact ⟨k, (lt_iff_value32 (x := 0) rfl (h.isFinite k)).mp hk⟩

/-- **The norm of a descriptor with a positive bin is zero exactly when it is a root and every
square underflows.** -/
theorem norm_beq_zero_iff (n : Normalization) :
    (n.norm raw.toList == 0) = true ↔ n = .l2 ∧ ∀ k, value32 (raw.get k) ≤ 2 ^ (-75 : Int) := by
  rw [Normalization.norm_beq_zero_iff, forall_mem_toList]
  cases n with
  | l2 =>
    rw [and_iff_right rfl]
    refine forall_congr' fun k => ?_
    rw [← abs_of_nonneg (h.value32_nonneg k)]
    exact square_beq_zero_iff (h.isFinite k)
  | l1Root =>
    refine iff_of_false (fun hzero => ?_) (by simp)
    obtain ⟨k, hk⟩ := h.exists_value32_pos
    have hvalue := (beq_zero32_iff_value.mp (hzero k)).2
    rw [Normalization.summand, value32_abs, abs_of_pos hk] at hvalue
    exact hk.ne' hvalue

/-- Below the ceiling each summand is at most `2 ^ 120`, and 128 of them fit. -/
theorem isFinite_norm (n : Normalization) (hle : ∀ k, value32 (raw.get k) ≤ n.ceiling) :
    (n.norm raw.toList).isFinite = true := by
  have hterms : ∀ v ∈ raw.toList, (n.summand v).isFinite = true ∧
      value32 (n.summand v) ≤ 2 ^ (120 : Int) := by
    rw [forall_mem_toList]
    intro k
    cases n with
    | l2 =>
      exact square_le (h.isFinite k) (h.value32_nonneg k) (hle k) (by decide) (by decide)
    | l1Root =>
      rw [Normalization.summand, isFinite_abs32, value32_abs, abs_of_nonneg (h.value32_nonneg k)]
      exact ⟨h.isFinite k, hle k⟩
  rw [Normalization.isFinite_norm_iff]
  refine Normalization.isFinite_sumFrom n.hasSign_summand rfl le_rfl (by positivity) hterms ?_
  rw [Vector.length_toList, value32_zero, value32_largest32]
  exact (sumBound_binCount_le (by positivity)).trans (by norm_num)

/-- One square that overflows is enough. -/
theorem not_isFinite_norm {k : Fin binCount} (hk : 2 ^ (64 : Int) ≤ value32 (raw.get k)) :
    (Normalization.norm .l2 raw.toList).isFinite = false := by
  have hlarge : 2 ^ (128 : Int) ≤ value32 (raw.get k) * value32 (raw.get k) := by
    calc (2 : ℚ) ^ (128 : Int) = 2 ^ (64 : Int) * 2 ^ (64 : Int) := by norm_num
      _ ≤ _ := mul_le_mul hk hk (by positivity) (h.value32_nonneg k)
  have hover : (raw.get k * raw.get k).isFinite = false :=
    not_isFinite_of_le (storedAt_mul32 (h.isFinite k) (h.isFinite k)) hlarge
  by_contra hfinite
  rw [Normalization.isFinite_square_of_norm (Bool.eq_true_of_not_eq_false hfinite) k] at hover
  cases hover

/-! ### The largest bin -/

theorem exists_peak : ∃ j, ∀ k, raw.get k ≤ raw.get j := by
  obtain ⟨j, hj⟩ := Finite.exists_max fun k => value32 (raw.get k)
  exact ⟨j, fun k => (le_iff_value32 (h.isFinite k) (h.isFinite j)).mpr (hj k)⟩

section Peak

variable {j : Fin binCount} (hpeak : ∀ k, raw.get k ≤ raw.get j)

include hpeak

theorem value32_le_peak (k : Fin binCount) : value32 (raw.get k) ≤ value32 (raw.get j) :=
  (le_iff_value32 (h.isFinite k) (h.isFinite j)).mp (hpeak k)

/-- The sum of the bins is not far above 128 times the largest one. -/
theorem norm_l1Root_le (hfinite : (Normalization.norm .l1Root raw.toList).isFinite = true) :
    value32 (Normalization.norm .l1Root raw.toList) ≤ 129 * value32 (raw.get j) := by
  refine Normalization.sum_le (n := .l1Root) hfinite (fun k => ?_) (h.value32_nonneg j)
  rw [Normalization.summand, value32_abs, abs_of_nonneg (h.value32_nonneg k)]
  exact h.value32_le_peak hpeak k

/-- The Euclidean norm, likewise, with the factor by which the square of the largest bin is rounded
up. -/
theorem sq_norm_l2_le (hfinite : (Normalization.norm .l2 raw.toList).isFinite = true)
    (hne : ¬(Normalization.norm .l2 raw.toList == 0) = true) {r : ℚ}
    (hr : value32 (raw.get j * raw.get j) ≤ r * value32 (raw.get j) ^ 2) :
    value32 (Normalization.norm .l2 raw.toList) ^ 2 ≤
      (1 + unitRoundoff .binary32) ^ 2 * (129 * (r * value32 (raw.get j) ^ 2)) := by
  have hsign := Normalization.hasSign_sum (Normalization.hasSign_summand .l2) raw.toList
  have hsum := (Normalization.isFinite_norm_iff .l2 raw.toList).mp hfinite
  have hpos := value32_pos_of_hasSign hsign hsum
    (mt (sqrt32_beq_zero_iff hsign).mpr hne)
  have hsquares := Normalization.isFinite_square_of_norm hfinite
  have hterms (k : Fin binCount) : value32 (Normalization.summand .l2 (raw.get k)) ≤
      r * value32 (raw.get j) ^ 2 :=
    (square_mono (hsquares j) (h.value32_nonneg k) (h.value32_le_peak hpeak k)
      (hsquares k)).trans hr
  have hnonneg := (Numeric.value32_nonneg (Normalization.hasSign_summand .l2 (raw.get j))).trans
    (hterms j)
  exact (sq_sqrt32_le hsum hpos).trans
    (mul_le_mul_of_nonneg_left (Normalization.sum_le hsum hterms hnonneg) (sq_nonneg _))

theorem le_peak_div_norm_l2 (hfinite : (Normalization.norm .l2 raw.toList).isFinite = true)
    (hne : ¬(Normalization.norm .l2 raw.toList == 0) = true) {r : ℚ}
    (hr : value32 (raw.get j * raw.get j) ≤ r * value32 (raw.get j) ^ 2) {c : Float32}
    (hc : c.isFinite = true)
    (hquotient : value32 c ^ 2 * ((1 + unitRoundoff .binary32) ^ 2 * (129 * r)) ≤ 1) :
    c ≤ raw.get j / Normalization.norm .l2 raw.toList := by
  have hpos := value32_pos_of_hasSign (Normalization.hasSign_norm .l2 raw.toList) hfinite hne
  refine le_div32 hc (h.isFinite j) hfinite hpos ?_
  refine le_of_sq_le_sq ?_ (h.value32_nonneg j)
  calc (value32 c * value32 (Normalization.norm .l2 raw.toList)) ^ 2
      = value32 c ^ 2 * value32 (Normalization.norm .l2 raw.toList) ^ 2 := mul_pow _ _ 2
    _ ≤ value32 c ^ 2 * ((1 + unitRoundoff .binary32) ^ 2 *
          (129 * (r * value32 (raw.get j) ^ 2))) :=
      mul_le_mul_of_nonneg_left (h.sq_norm_l2_le hpeak hfinite hne hr) (sq_nonneg _)
    _ = value32 c ^ 2 * ((1 + unitRoundoff .binary32) ^ 2 * (129 * r)) *
          value32 (raw.get j) ^ 2 := by ring
    _ ≤ 1 * value32 (raw.get j) ^ 2 := mul_le_mul_of_nonneg_right hquotient (sq_nonneg _)
    _ = value32 (raw.get j) ^ 2 := one_mul _

theorem le_peak_div_norm_l1Root
    (hfinite : (Normalization.norm .l1Root raw.toList).isFinite = true)
    (hne : ¬(Normalization.norm .l1Root raw.toList == 0) = true) {c : Float32}
    (hc : c.isFinite = true) (hnonneg : 0 ≤ value32 c) (hquotient : value32 c * 129 ≤ 1) :
    c ≤ raw.get j / Normalization.norm .l1Root raw.toList := by
  have hpos := value32_pos_of_hasSign (Normalization.hasSign_norm .l1Root raw.toList) hfinite hne
  refine le_div32 hc (h.isFinite j) hfinite hpos ?_
  calc value32 c * value32 (Normalization.norm .l1Root raw.toList)
      ≤ value32 c * (129 * value32 (raw.get j)) :=
        mul_le_mul_of_nonneg_left (h.norm_l1Root_le hpeak hfinite) hnonneg
    _ = value32 c * 129 * value32 (raw.get j) := (mul_assoc _ _ _).symm
    _ ≤ 1 * value32 (raw.get j) := mul_le_mul_of_nonneg_right hquotient (h.value32_nonneg j)
    _ = value32 (raw.get j) := one_mul _

end Peak

end Usable

/-! ## Bytes -/

/-- `89 / 1024` is the least value whose byte is 45. -/
theorem value32_byte45 : value32 (89 / 1024) = 89 / 1024 := by
  have hu : unpack32 (89 / 1024) = .finite .positive 11665408 (-27) (by decide) := rfl
  rw [value32_of_unpack hu]
  norm_num

/-- `63 / 1024` is the least value whose byte is 32. -/
theorem value32_byte32 : value32 (63 / 1024) = 63 / 1024 := by
  have hu : unpack32 (63 / 1024) = .finite .positive 16515072 (-28) (by decide) := rfl
  rw [value32_of_unpack hu]
  norm_num

/-- The square of `89 / 1024`. -/
theorem value32_square45 : value32 (7921 / 1048576) = 7921 / 1048576 := by
  have hu : unpack32 (7921 / 1048576) = .finite .positive 16222208 (-31) (by decide) := rfl
  rw [value32_of_unpack hu]
  norm_num

/-- The largest value whose square is zero. -/
def faint : Float32 := .ofBits 0x1a000000

theorem value32_faint : value32 faint = 2 ^ (-75 : Int) := by
  have hu : unpack32 faint = .finite .positive 8388608 (-98) (by decide) := rfl
  rw [value32_of_unpack hu]
  norm_num

namespace Descriptor

theorem get_quantize (n : Normalization) (raw : Vector Float32 binCount) (k : Fin binCount) :
    (quantize n raw).bins.get k = quantizeBin (n.rescale (n.norm raw.toList) (raw.get k)) := by
  simp [quantize, ofNormalized, Vector.get_eq_getElem]

/-- **A descriptor is similar to itself when it is not zero.** -/
theorem dot_self_pos_iff (d : Descriptor) :
    0 < (d.dot d).toInt ↔ ∃ k, d.bins.get k ≠ 0 := by
  rw [toInt_dot, Finset.sum_pos_iff_of_nonneg (fun k _ => mul_self_nonneg _)]
  refine exists_congr fun k => ?_
  rw [and_iff_right (Finset.mem_univ k), mul_self_pos, Int.natCast_ne_zero, ne_eq, ne_eq,
    ← UInt8.toNat_inj]
  rfl

end Descriptor

namespace Usable

variable {raw : Vector Float32 binCount} (h : Usable raw)

include h

/-- With a norm of zero no bin is large enough for a byte. -/
theorem byte_of_norm_zero {n : Normalization} (hzero : (n.norm raw.toList == 0) = true)
    (k : Fin binCount) : (Descriptor.quantize n raw).bins.get k = 0 := by
  have hsmall := ((h.norm_beq_zero_iff n).mp hzero).2 k
  have hle : raw.get k ≤ faint :=
    (le_iff_value32 (h.isFinite k) rfl).mpr (hsmall.trans_eq value32_faint.symm)
  have hfaint : quantizeBin faint = 0 := by decide +kernel
  rw [Descriptor.get_quantize]
  unfold Normalization.rescale
  rw [if_pos hzero]
  exact UInt8.le_antisymm (hfaint ▸ quantizeBin_mono hle) UInt8.zero_le

/-- **With a norm out of range no byte is left.** -/
theorem byte_of_norm_out_of_range {n : Normalization}
    (hout : (n.norm raw.toList).isFinite = true → (n.norm raw.toList == 0) = true)
    (k : Fin binCount) : (Descriptor.quantize n raw).bins.get k = 0 := by
  by_cases hfinite : (n.norm raw.toList).isFinite = true
  · exact h.byte_of_norm_zero (hout hfinite) k
  · rw [Descriptor.get_quantize]
    exact quantizeBin_rescale_of_not_isFinite n (Bool.eq_false_iff.mpr hfinite) _

section Peak

variable {j : Fin binCount} (hpeak : ∀ k, raw.get k ≤ raw.get j)

include hpeak

theorem peak_byte_l1Root (hfinite : (Normalization.norm .l1Root raw.toList).isFinite = true)
    (hne : ¬(Normalization.norm .l1Root raw.toList == 0) = true) :
    45 ≤ (Descriptor.quantize .l1Root raw).bins.get j := by
  have hquotient := h.le_peak_div_norm_l1Root hpeak hfinite hne (c := 7921 / 1048576) rfl
    (by rw [value32_square45]; norm_num) (by rw [value32_square45]; norm_num)
  have hroot : Float32.sqrt (7921 / 1048576) = 89 / 1024 := by decide +kernel
  have hbyte : quantizeBin (89 / 1024) = 45 := by decide +kernel
  rw [Descriptor.get_quantize, Normalization.rescale, if_neg hne]
  rcases sqrt_le_sqrt32 hquotient with hnan | hle
  · rw [hroot] at hnan
    cases hnan
  · rw [hroot] at hle
    exact hbyte ▸ quantizeBin_mono hle

theorem peak_byte_l2 (hfinite : (Normalization.norm .l2 raw.toList).isFinite = true)
    (hne : ¬(Normalization.norm .l2 raw.toList == 0) = true) :
    32 ≤ (Descriptor.quantize .l2 raw).bins.get j ∧
      (2 ^ (-63 : Int) ≤ value32 (raw.get j) →
        45 ≤ (Descriptor.quantize .l2 raw).bins.get j) := by
  have hsquare := Normalization.isFinite_square_of_norm hfinite j
  rw [Descriptor.get_quantize, Normalization.rescale, if_neg hne]
  constructor
  · have hvisible : (2 : ℚ) ^ (-75 : Int) ≤ value32 (raw.get j) := by
      by_contra hfaint
      exact hne ((h.norm_beq_zero_iff .l2).mpr
        ⟨rfl, fun k => (h.value32_le_peak hpeak k).trans (not_le.mp hfaint).le⟩)
    have hbyte : quantizeBin (63 / 1024) = 32 := by decide +kernel
    refine hbyte ▸ quantizeBin_mono (h.le_peak_div_norm_l2 hpeak hfinite hne
      (square_le_two_mul hsquare hvisible) rfl ?_)
    rw [value32_byte32, unitRoundoff_binary32]
    norm_num
  · intro hnormal
    have hbyte : quantizeBin (89 / 1024) = 45 := by decide +kernel
    refine hbyte ▸ quantizeBin_mono (h.le_peak_div_norm_l2 hpeak hfinite hne
      (square_le_of_normal hsquare hnormal) rfl ?_)
    rw [value32_byte45, unitRoundoff_binary32]
    norm_num

/-- **The byte of the largest bin**, as long as the norm is neither zero nor infinite. -/
theorem peak_byte {n : Normalization} (hfinite : (n.norm raw.toList).isFinite = true)
    (hne : ¬(n.norm raw.toList == 0) = true) :
    32 ≤ (Descriptor.quantize n raw).bins.get j ∧
      (n = .l1Root ∨ 2 ^ (-63 : Int) ≤ value32 (raw.get j) →
        45 ≤ (Descriptor.quantize n raw).bins.get j) := by
  cases n with
  | l2 =>
    obtain ⟨hleast, hlarge⟩ := h.peak_byte_l2 hpeak hfinite hne
    exact ⟨hleast, fun hcase => hlarge (hcase.resolve_left (by decide))⟩
  | l1Root =>
    have hbyte := h.peak_byte_l1Root hpeak hfinite hne
    exact ⟨UInt8.le_trans (by decide) hbyte, fun _ => hbyte⟩

end Peak

/-- **A byte is left exactly when the norm is neither zero nor infinite.** -/
theorem exists_byte_iff (n : Normalization) :
    (∃ k, (Descriptor.quantize n raw).bins.get k ≠ 0) ↔
      (n.norm raw.toList).isFinite = true ∧ ¬(n.norm raw.toList == 0) = true := by
  constructor
  · rintro ⟨k, hk⟩
    by_contra hout
    exact hk (h.byte_of_norm_out_of_range (by simpa using hout) k)
  · rintro ⟨hfinite, hne⟩
    obtain ⟨j, hpeak⟩ := h.exists_peak
    refine ⟨j, fun hzero => ?_⟩
    have hbyte := (h.peak_byte hpeak hfinite hne).1
    rw [hzero] at hbyte
    exact absurd hbyte (by decide)

end Usable

/-- **Which descriptors keep a byte, and how large it is.** For both normalizations and any 128
finite bins of which none is negative and one is positive: the bytes are not all zero, and the
descriptor has a positive similarity with itself, exactly when the norm is neither zero nor
infinite. The norm is zero only if it is a root and no bin is above `2 ^ -75`. It is finite if no
bin is above `2 ^ 60`, or `2 ^ 120` without squares, and a square of a bin from `2 ^ 64` on makes it
infinite. In between a largest bin has a byte of at least 32, and of at least 45 unless its square
is subnormal. -/
theorem byte_left_iff_norm_in_range (n : Normalization) (raw : Vector Float32 binCount)
    (h : Usable raw) :
    ((∃ k, (Descriptor.quantize n raw).bins.get k ≠ 0) ↔
        (n.norm raw.toList).isFinite = true ∧ ¬(n.norm raw.toList == 0) = true) ∧
      (0 < ((Descriptor.quantize n raw).dot (Descriptor.quantize n raw)).toInt ↔
        (n.norm raw.toList).isFinite = true ∧ ¬(n.norm raw.toList == 0) = true) ∧
      ((n.norm raw.toList == 0) = true ↔
        n = .l2 ∧ ∀ k, value32 (raw.get k) ≤ 2 ^ (-75 : Int)) ∧
      ((∀ k, value32 (raw.get k) ≤ n.ceiling) → (n.norm raw.toList).isFinite = true) ∧
      (n = .l2 → (∃ k, 2 ^ (64 : Int) ≤ value32 (raw.get k)) →
        (n.norm raw.toList).isFinite = false) ∧
      ((n.norm raw.toList).isFinite = true → ¬(n.norm raw.toList == 0) = true →
        ∀ j, (∀ k, raw.get k ≤ raw.get j) →
          32 ≤ (Descriptor.quantize n raw).bins.get j ∧
          (n = .l1Root ∨ 2 ^ (-63 : Int) ≤ value32 (raw.get j) →
            45 ≤ (Descriptor.quantize n raw).bins.get j)) := by
  refine ⟨h.exists_byte_iff n, ?_, h.norm_beq_zero_iff n, h.isFinite_norm n, ?_, ?_⟩
  · rw [Descriptor.dot_self_pos_iff]
    exact h.exists_byte_iff n
  · rintro rfl ⟨k, hk⟩
    exact h.not_isFinite_norm hk
  · intro hfinite hne j hpeak
    exact h.peak_byte hpeak hfinite hne

/-- Both normalizations leave the descriptor of length 5 a byte and a positive similarity with
itself. -/
theorem byte_left_iff_norm_in_range_lengthFive :
    Usable lengthFive ∧ ∀ n,
      (∃ k, (Descriptor.quantize n lengthFive).bins.get k ≠ 0) ∧
        0 < ((Descriptor.quantize n lengthFive).dot (Descriptor.quantize n lengthFive)).toInt := by
  have husable : Usable lengthFive :=
    ⟨by decide +kernel, by decide +kernel, 0, by decide +kernel⟩
  refine ⟨husable, fun n => ?_⟩
  have hnorm : (n.norm lengthFive.toList).isFinite = true ∧
      ¬(n.norm lengthFive.toList == 0) = true := by
    cases n <;> decide +kernel
  obtain ⟨hbyte, hsimilar, -⟩ := byte_left_iff_norm_in_range n lengthFive husable
  exact ⟨hbyte.mpr hnorm, hsimilar.mpr hnorm⟩

/-- A raw descriptor whose first bins have one value, the others none. -/
def spikes (count : Nat) (height : Float32) : Vector Float32 binCount :=
  .ofFn fun k => if k.val < count then height else 0

theorem get_spikes (count : Nat) (height : Float32) (k : Fin binCount) :
    (spikes count height).get k = if k.val < count then height else 0 := by
  simp [spikes, Vector.get_eq_getElem]

theorem usable_spikes {count : Nat} {height : Float32} (hcount : 0 < count)
    (hfinite : height.isFinite = true) (hpos : 0 < height) : Usable (spikes count height) where
  isFinite := fun k => by
    rw [get_spikes]
    split
    · exact hfinite
    · rfl
  nonneg := fun k => by
    rw [get_spikes]
    split
    · exact (le_iff_value32 rfl hfinite).mpr ((lt_iff_value32 rfl hfinite).mp hpos).le
    · exact (le_iff_value32 rfl rfl).mpr le_rfl
  exists_pos := by
    refine ⟨⟨0, Nat.succ_pos _⟩, ?_⟩
    rw [get_spikes, if_pos hcount]
    exact hpos

/-- Three descriptors with positive bins that become the zero descriptor: one bin whose square
overflows, one bin whose square underflows, and two bins whose sum overflows. -/
theorem spikes_leave_no_byte :
    (Usable (spikes 1 1e30) ∧
        ∀ k, (Descriptor.quantize .l2 (spikes 1 1e30)).bins.get k = 0) ∧
      (Usable (spikes 1 1e-30) ∧
        ∀ k, (Descriptor.quantize .l2 (spikes 1 1e-30)).bins.get k = 0) ∧
      (Usable (spikes 2 3e38) ∧
        ∀ k, (Descriptor.quantize .l1Root (spikes 2 3e38)).bins.get k = 0) := by
  have hover : Usable (spikes 1 1e30) :=
    usable_spikes one_pos (by decide +kernel) (by decide +kernel)
  have hunder : Usable (spikes 1 1e-30) :=
    usable_spikes one_pos (by decide +kernel) (by decide +kernel)
  have hsum : Usable (spikes 2 3e38) :=
    usable_spikes two_pos (by decide +kernel) (by decide +kernel)
  exact ⟨⟨hover, hover.byte_of_norm_out_of_range (by decide +kernel)⟩,
    ⟨hunder, hunder.byte_of_norm_out_of_range (by decide +kernel)⟩,
    ⟨hsum, hsum.byte_of_norm_out_of_range (by decide +kernel)⟩⟩

end FeatureMatching
