import Mathlib
import FeatureMatching.Proofs.BinOrder
import FeatureMatching.Proofs.Float.Error

/-!
# When a norm can be computed

The norm comes from a sum of squares or of magnitudes that is accumulated in binary32, from left to
right. No term has a sign, so the running sum never gets smaller, and a finite sum has finite terms
(`le_sumFrom`). Each addition rounds, by one factor at most, which bounds the sum by its largest
term (`sumFrom_le`); while the bound is not above the largest finite number nothing overflows
(`isFinite_sumFrom`). Both are inductions on the values that follow the running sum.

A root changes neither end of the range: it is finite when its argument is, and zero when its
argument is. So the norm is finite when the sum is, and zero when every term is
(`isFinite_norm_iff`, `norm_beq_zero_iff`). A term that is a square can be zero where the value is
not (`square_beq_zero_iff`).
-/

set_option autoImplicit false

namespace FeatureMatching

open Numeric
open Float.Model (Format UnpackedFloat)
open Float.Model.UnpackedFloat

/-! ## Zeros, roots and squares -/

section Values

variable {x y : Float32}

theorem beq_zero32_iff_value : (x == 0) = true ↔ x.isFinite = true ∧ value32 x = 0 := by
  rw [beq_zero32_iff, value32, show x.isFinite = (unpack32 x).isFinite from rfl]
  cases unpack32 x with
  | notANumber | infinity s => simp [UnpackedFloat.isFinite]
  | zero s => simp [UnpackedFloat.isFinite, value]
  | finite s m e hm =>
    have hmagnitude : (m : ℚ) * 2 ^ e ≠ 0 := by positivity
    cases s <;> simpa [UnpackedFloat.isFinite, value, Sign.apply] using hmagnitude

theorem le_iff_value32 (hx : x.isFinite = true) (hy : y.isFinite = true) :
    x ≤ y ↔ value32 x ≤ value32 y := by
  rw [le_iff_position32, position32_le_iff hx hy]
  exact and_iff_right ⟨isNaN_of_isFinite hx, isNaN_of_isFinite hy⟩

theorem lt_iff_value32 (hx : x.isFinite = true) (hy : y.isFinite = true) :
    x < y ↔ value32 x < value32 y := by
  rw [lt_iff_position32, ← not_le, position32_le_iff hy hx, not_le]
  exact and_iff_right ⟨isNaN_of_isFinite hx, isNaN_of_isFinite hy⟩

end Values

section Root

variable {x : Float32}

theorem unpack32_sqrt_of_beq_zero (h : (x == 0) = true) : unpack32 x.sqrt = unpack32 x := by
  obtain ⟨s, hs⟩ := beq_zero32_iff.mp h
  rw [unpack32_sqrt, hs]
  exact settle_zero s

variable (hx : HasSign .positive (unpack32 x))

include hx

theorem isFinite_sqrt32_iff : x.sqrt.isFinite = true ↔ x.isFinite = true := by
  refine ⟨isFinite_of_sqrt32, fun hfinite => ?_⟩
  by_cases hzero : (x == 0) = true
  · show (unpack32 x.sqrt).isFinite = true
    rw [unpack32_sqrt_of_beq_zero hzero]
    exact hfinite
  · exact isFinite_sqrt32 hfinite (value32_pos_of_hasSign hx hfinite hzero)

theorem sqrt32_beq_zero_iff : (x.sqrt == 0) = true ↔ (x == 0) = true := by
  constructor
  · intro h
    by_contra hzero
    obtain ⟨hroot, hvalue⟩ := beq_zero32_iff_value.mp h
    have hfinite := isFinite_of_sqrt32 hroot
    exact (sqrt32_pos hfinite (value32_pos_of_hasSign hx hfinite hzero)).ne' hvalue
  · intro h
    rw [beq_zero32_iff, unpack32_sqrt_of_beq_zero h, ← beq_zero32_iff]
    exact h

end Root

section Square

variable {v w : Float32}

/-- **A square underflows to zero** when the number is at most the root of half of the least
subnormal. -/
theorem square_beq_zero_iff (hv : v.isFinite = true) :
    (v * v == 0) = true ↔ |value32 v| ≤ 2 ^ (-75 : Int) := by
  have hhalf : (2 : ℚ) ^ Format.binary32.minExponent / 2 = (2 ^ (-75 : Int)) ^ 2 := by
    show (2 : ℚ) ^ (-149 : Int) / 2 = _
    norm_num
  have hzero : roundValue .binary32 (value32 v * value32 v) = 0 ↔
      |value32 v| ≤ 2 ^ (-75 : Int) := by
    rw [roundValue_eq_zero_iff (mul_self_nonneg _), hhalf, ← sq,
      sq_le_sq, abs_of_pos (zpow_pos (two_pos (α := ℚ)) _)]
  rw [beq_zero32_iff_value]
  constructor
  · rintro ⟨hfinite, hvalue⟩
    rwa [value32_mul hfinite, hzero] at hvalue
  · intro hsmall
    have hfinite : (v * v).isFinite = true := by
      refine isFinite_of_storedAt32 (e := 0) (storedAt_mul32 hv hv) ?_ (by decide)
      rw [abs_mul, zpow_zero]
      have hone : |value32 v| ≤ 1 := hsmall.trans (by norm_num)
      exact mul_le_one₀ hone (abs_nonneg _) hone
    exact ⟨hfinite, by rw [value32_mul hfinite, hzero]; exact hsmall⟩

theorem square_le {b : Int} (hv : v.isFinite = true) (hnonneg : 0 ≤ value32 v)
    (hle : value32 v ≤ 2 ^ b) (hlow : -149 ≤ b + b) (hhigh : b + b ≤ 127) :
    (v * v).isFinite = true ∧ value32 (v * v) ≤ 2 ^ (b + b) := by
  have hbound : |value32 v * value32 v| ≤ 2 ^ (b + b) := by
    rw [abs_of_nonneg (mul_self_nonneg _), zpow_add₀ two_ne_zero]
    exact mul_le_mul hle hle hnonneg (zpow_pos two_pos _).le
  have hfinite : (v * v).isFinite = true :=
    isFinite_of_storedAt32 (storedAt_mul32 hv hv) hbound hhigh
  refine ⟨hfinite, ?_⟩
  rw [value32_mul hfinite]
  exact (le_abs_self _).trans (abs_roundValue_le hbound hlow)

theorem square_mono (hw : (w * w).isFinite = true) (hnonneg : 0 ≤ value32 v)
    (hle : value32 v ≤ value32 w) (hv : (v * v).isFinite = true) :
    value32 (v * v) ≤ value32 (w * w) := by
  obtain ⟨hfv, -⟩ := isFinite_of_mul32 hv
  obtain ⟨hfw, -⟩ := isFinite_of_mul32 hw
  rw [← position32_le_iff hv hw, (position32_mul hfv hfv).2, (position32_mul hfw hfw).2]
  exact roundPosition_mono (mul_le_mul hle hle hnonneg (hnonneg.trans hle))

/-- A square that does not vanish is at most doubled. -/
theorem square_le_two_mul (hv : (v * v).isFinite = true) (h : 2 ^ (-75 : Int) ≤ value32 v) :
    value32 (v * v) ≤ 2 * value32 v ^ 2 := by
  have hsq := pow_le_pow_left₀ (by positivity) h 2
  rw [value32_mul hv, ← sq]
  refine roundValue_le_two_mul ((le_of_eq ?_).trans hsq)
  show (2 : ℚ) ^ (-149 : Int) / 2 = _
  norm_num

/-- A square in the normal range has the relative error of any normal number. -/
theorem square_le_of_normal (hv : (v * v).isFinite = true) (h : 2 ^ (-63 : Int) ≤ value32 v) :
    value32 (v * v) ≤ (1 + unitRoundoff .binary32) * value32 v ^ 2 := by
  have hsq := pow_le_pow_left₀ (by positivity) h 2
  rw [value32_mul hv, ← sq]
  refine roundValue_le_of_resolved (sq_nonneg _) (.inl ?_)
  rw [abs_of_nonneg (sq_nonneg _)]
  refine (le_of_eq ?_).trans hsq
  show (2 : ℚ) ^ (-126 : Int) = _
  norm_num

end Square

/-! ## Sums without a sign -/

/-- A bound for a sum that starts at `t` and adds `n` numbers of at most `a`, where each addition
rounds. -/
def sumBound (n : Nat) (t a : ℚ) : ℚ := (1 + unitRoundoff .binary32) ^ n * (t + n * a)

section SumBound

variable {n : Nat} {t a : ℚ}

theorem le_sumBound (ht : 0 ≤ t) (ha : 0 ≤ a) : t + n * a ≤ sumBound n t a :=
  le_mul_of_one_le_left (by positivity)
    (one_le_pow₀ (le_add_of_nonneg_right (unitRoundoff_nonneg .binary32)))

/-- One rounded addition is paid for by one more factor. -/
theorem sumBound_step {x y : Float32} (h : (x + y).isFinite = true) (hx : 0 ≤ value32 x)
    (hy : 0 ≤ value32 y) (hle : value32 y ≤ a) :
    sumBound n (value32 (x + y)) a ≤ sumBound (n + 1) (value32 x) a := by
  have hunit := unitRoundoff_nonneg .binary32
  have ha : 0 ≤ a := hy.trans hle
  have hgrowth : 0 ≤ unitRoundoff .binary32 * (n * a) := by positivity
  have hadd : value32 (x + y) ≤ (1 + unitRoundoff .binary32) * (value32 x + a) :=
    (value32_add_le h hx hy).trans
      (mul_le_mul_of_nonneg_left (by linarith) (by linarith))
  unfold sumBound
  rw [pow_succ, mul_assoc]
  refine mul_le_mul_of_nonneg_left ?_ (by positivity)
  push_cast
  linarith

/-- 128 additions cost less than one part in 128. -/
theorem sumBound_binCount_le {a : ℚ} (ha : 0 ≤ a) : sumBound binCount 0 a ≤ 129 * a := by
  have hfactor : (1 + 1 / 2 ^ 24 : ℚ) ^ 128 * 128 ≤ 129 := by norm_num
  calc sumBound binCount 0 a = (1 + 1 / 2 ^ 24) ^ 128 * 128 * a := by
        unfold sumBound binCount
        rw [unitRoundoff_binary32]
        push_cast
        ring
    _ ≤ 129 * a := mul_le_mul_of_nonneg_right hfactor ha

end SumBound

namespace Normalization

section Sum

variable {f : Float32 → Float32} {a : ℚ}

/-- The sum of a function of the values, with a start. -/
def sumFrom (f : Float32 → Float32) (total : Float32) (values : List Float32) : Float32 :=
  values.foldl (fun total v => total + f v) total

theorem sum_eq_sumFrom (f : Float32 → Float32) (values : List Float32) :
    sum f values = sumFrom f 0 values := rfl

variable {total v : Float32} {values rest : List Float32}

theorem sumFrom_cons : sumFrom f total (v :: rest) = sumFrom f (total + f v) rest := rfl

theorem isFinite_of_sumFrom (h : (sumFrom f total values).isFinite = true) :
    total.isFinite = true ∧ ∀ v ∈ values, (f v).isFinite = true := by
  induction values generalizing total with
  | nil => exact ⟨h, by simp⟩
  | cons v rest ih =>
    obtain ⟨hhead, hrest⟩ := ih (sumFrom_cons ▸ h)
    obtain ⟨htotal, hv⟩ := isFinite_of_add32 hhead
    exact ⟨htotal, by simpa using ⟨hv, hrest⟩⟩

variable (hf : ∀ v, HasSign .positive (unpack32 (f v)))

include hf

/-- A sum is not below its start, nor below any term. -/
theorem le_sumFrom (h : (sumFrom f total values).isFinite = true) (htotal : 0 ≤ value32 total) :
    value32 total ≤ value32 (sumFrom f total values) ∧
      ∀ v ∈ values, value32 (f v) ≤ value32 (sumFrom f total values) := by
  induction values generalizing total with
  | nil => exact ⟨le_rfl, by simp⟩
  | cons v rest ih =>
    rw [sumFrom_cons] at h ⊢
    have hhead := (isFinite_of_sumFrom h).1
    obtain ⟨hfinite, hfv⟩ := isFinite_of_add32 hhead
    have hterm := value32_nonneg (hf v)
    have hstart := le_value32_add hhead hfinite (le_add_of_nonneg_right hterm)
    have hv := le_value32_add hhead hfv (le_add_of_nonneg_left htotal)
    obtain ⟨hle, hrest⟩ := ih h (htotal.trans hstart)
    exact ⟨hstart.trans hle, by simpa using ⟨hv.trans hle, hrest⟩⟩

/-- **A finite sum is within its bound.** -/
theorem sumFrom_le (h : (sumFrom f total values).isFinite = true) (htotal : 0 ≤ value32 total)
    (hterms : ∀ v ∈ values, value32 (f v) ≤ a) :
    value32 (sumFrom f total values) ≤ sumBound values.length (value32 total) a := by
  induction values generalizing total with
  | nil => simp [sumFrom, sumBound]
  | cons v rest ih =>
    rw [sumFrom_cons] at h ⊢
    obtain ⟨hv, hrest⟩ := List.forall_mem_cons.mp hterms
    have hhead := (isFinite_of_sumFrom h).1
    have hterm := value32_nonneg (hf v)
    have hstart := le_value32_add hhead (isFinite_of_add32 hhead).1 (le_add_of_nonneg_right hterm)
    exact (ih h (htotal.trans hstart) hrest).trans
      (sumBound_step hhead htotal hterm hv)

/-- **A sum whose bound is not above the largest finite number is finite.** -/
theorem isFinite_sumFrom (hfinite : total.isFinite = true) (htotal : 0 ≤ value32 total)
    (ha : 0 ≤ a) (hterms : ∀ v ∈ values, (f v).isFinite = true ∧ value32 (f v) ≤ a)
    (hbound : sumBound values.length (value32 total) a ≤ value32 largest32) :
    (sumFrom f total values).isFinite = true := by
  induction values generalizing total with
  | nil => exact hfinite
  | cons v rest ih =>
    obtain ⟨⟨hfv, hv⟩, hrest⟩ := List.forall_mem_cons.mp hterms
    have hterm := value32_nonneg (hf v)
    have hexact : value32 total + value32 (f v) ≤ value32 largest32 := by
      have hleast := (le_sumBound (n := (v :: rest).length) htotal ha).trans hbound
      rw [List.length_cons] at hleast
      push_cast at hleast
      have hothers : 0 ≤ (rest.length : ℚ) * a := by positivity
      linarith
    have hhead := isFinite_add32 hfinite hfv htotal hterm hexact
    have hstart := le_value32_add hhead hfinite (le_add_of_nonneg_right hterm)
    rw [sumFrom_cons]
    exact ih hhead (htotal.trans hstart) hrest
      ((sumBound_step hhead htotal hterm hv).trans hbound)

/-- A sum is zero when all its terms are. -/
theorem sum_beq_zero_iff {values : List Float32} :
    (sum f values == 0) = true ↔ ∀ v ∈ values, (f v == 0) = true := by
  rw [sum_eq_sumFrom]
  constructor
  · intro h v hv
    obtain ⟨hfinite, hzero⟩ := beq_zero32_iff_value.mp h
    obtain ⟨-, hterms⟩ := le_sumFrom hf hfinite le_rfl
    refine beq_zero32_iff_value.mpr ⟨(isFinite_of_sumFrom hfinite).2 v hv, ?_⟩
    exact le_antisymm ((hterms v hv).trans_eq hzero) (value32_nonneg (hf v))
  · intro h
    have hterms : ∀ v ∈ values, (f v).isFinite = true ∧ value32 (f v) ≤ 0 := fun v hv =>
      (beq_zero32_iff_value.mp (h v hv)).imp_right le_of_eq
    have hzero : sumBound values.length (value32 0) 0 = 0 := by
      simp [sumBound, value32_zero]
    have hfinite : (sumFrom f 0 values).isFinite = true := by
      refine isFinite_sumFrom hf rfl le_rfl le_rfl hterms ?_
      rw [hzero, value32_largest32]
      norm_num
    have hle := sumFrom_le hf hfinite le_rfl fun v hv => (hterms v hv).2
    rw [hzero] at hle
    exact beq_zero32_iff_value.mpr
      ⟨hfinite, le_antisymm hle (value32_nonneg (hasSign_sum hf values))⟩

end Sum

/-! ## The norm -/

/-- What a value adds to the sum that the norm is computed from. -/
def summand : Normalization → Float32 → Float32
  | .l2, v => v * v
  | .l1Root, v => v.abs

theorem hasSign_summand (n : Normalization) (v : Float32) :
    HasSign .positive (unpack32 (n.summand v)) := by
  cases n with
  | l2 => exact (hasSign_square (F := .binary32)).settle
  | l1Root => exact (hasSign_abs (u := unpack32 v)).settle

section Norm

variable (n : Normalization) (values : List Float32)

/-- **The norm is finite when the sum is**, also where it is a root. -/
theorem isFinite_norm_iff :
    (n.norm values).isFinite = true ↔ (sum n.summand values).isFinite = true := by
  cases n with
  | l2 => exact isFinite_sqrt32_iff (hasSign_sum (hasSign_summand .l2) values)
  | l1Root => exact Iff.rfl

/-- **The norm is zero when all summands are.** -/
theorem norm_beq_zero_iff :
    (n.norm values == 0) = true ↔ ∀ v ∈ values, (n.summand v == 0) = true := by
  rw [← sum_beq_zero_iff (hasSign_summand n)]
  cases n with
  | l2 => exact sqrt32_beq_zero_iff (hasSign_sum (hasSign_summand .l2) values)
  | l1Root => exact Iff.rfl

end Norm

end Normalization

end FeatureMatching
