import Mathlib
import FeatureMatching.Proofs.FilterThreshold
import FeatureMatching.Proofs.Float.Specials
import FeatureMatching.Proofs.Float.Widening

/-!
# Residuals of data that is not finite

A model or a point may hold infinities and NaN. The Sampson distance is closed against them: its
numerator is a polynomial in all nine entries and all four coordinates, so whatever is not finite
makes the numerator infinite or a NaN, and no denominator turns that into a number again
(`Residual.sampson_of_not_isFinite`).

The transfer distance divides first and subtracts then. Its numerators see the first two rows and
the points, but the third row occurs in the denominator only, and a finite number over an infinite
depth is zero. The image is then taken to be the origin, and the residual is the squared distance of
`q` from there (`Residual.VanishesInDepth.transfer_eq`). At every other depth bad data is noticed
(`Residual.transfer_of_not_isFinite`).

Neither residual is ever a NaN or has a sign (`Residual.IsDistance`).
-/

set_option autoImplicit false

namespace FeatureMatching

open Numeric
open Float.Model (UnpackedFloat)

namespace Residual

/-! ## Results -/

/-- A residual as the threshold test wants it: infinite, or finite with a clear sign bit. -/
def IsDistance (r : Float) : Prop :=
  r = infinity64 ∨ r.isFinite = true ∧ r.toBits < 0x8000000000000000

theorem IsDistance.isNaN {r : Float} (h : IsDistance r) : r.isNaN = false := by
  rcases h with rfl | ⟨hfinite, -⟩
  · decide +kernel
  · exact isNaN_of_isFinite64 hfinite

theorem IsDistance.ne_neg_zero {r : Float} (h : IsDistance r) : r ≠ -0 := by
  rintro rfl
  rcases h with h | ⟨-, h⟩
  · exact absurd h (by decide +kernel)
  · exact absurd h (by decide +kernel)

theorem isDistance_finiteOrInfinity {result : Option Float}
    (h : ∀ r, result = some r → HasSign .positive (unpack64 r)) :
    IsDistance (finiteOrInfinity result) := by
  cases result with
  | none => exact .inl rfl
  | some r =>
    simp only [finiteOrInfinity]
    split
    · rename_i hfinite
      exact .inr ⟨hfinite, toBits_lt_of_hasSign hfinite (h r rfl)⟩
    · exact .inl rfl

/-- Bad data makes a result infinite if finite results have finite data only. -/
theorem finiteOrInfinity_of_not_isFinite {result : Option Float} {data : List Float}
    (hbad : ∃ x ∈ data, x.isFinite = false)
    (h : ∀ r, result = some r → r.isFinite = true → ∀ x ∈ data, x.isFinite = true) :
    finiteOrInfinity result = infinity64 := by
  obtain ⟨x, hmem, hx⟩ := hbad
  cases result with
  | none => rfl
  | some r =>
    simp only [finiteOrInfinity]
    split
    · rename_i hfinite
      rw [h r rfl hfinite x hmem] at hx
      cases hx
    · rfl

theorem exceeds_infinity {maxResidual : Float} (h : maxResidual.isFinite = true) :
    Filter.exceeds (some infinity64) maxResidual = true := by
  rw [Filter.exceeds_some, decide_eq_true_eq]
  exact lt_infinity64_of_isFinite h

/-- A residual without a sign is kept if it was not above the threshold before overflows and NaN
were replaced. -/
theorem exceeds_finiteOrInfinity_eq_false_iff {r maxResidual : Float}
    (hsign : HasSign .positive (unpack64 r)) (h : maxResidual.isFinite = true) :
    Filter.exceeds (some (finiteOrInfinity (some r))) maxResidual = false ↔ r ≤ maxResidual := by
  cases hfinite : r.isFinite with
  | true =>
    rw [finiteOrInfinity, if_pos hfinite, Filter.exceeds_some, decide_eq_false_iff_not]
    constructor
    · exact le_of_not_lt64 (isNaN_of_isFinite64 h) (isNaN_of_isFinite64 hfinite)
    · intro hle hlt
      obtain ⟨-, hself⟩ := lt_iff_position64.mp (lt_of_le_of_lt64 hle hlt)
      exact absurd hself (Int.lt_irrefl _)
  | false =>
    rw [finiteOrInfinity, if_neg (by simp [hfinite]), exceeds_infinity h]
    constructor
    · intro hnot
      cases hnot
    · intro hle
      rw [isFinite_of_le64 hsign hle h] at hfinite
      cases hfinite

/-! ## Rows of a matrix -/

/-- One component of the image of a point is finite only if all that it is computed from is. -/
theorem isFinite_of_row {a b c x y : Float} (h : (a * x + b * y + c * 1).isFinite = true) :
    (a.isFinite = true ∧ b.isFinite = true ∧ c.isFinite = true) ∧
      x.isFinite = true ∧ y.isFinite = true := by
  obtain ⟨hab, hc⟩ := isFinite_of_add64 h
  obtain ⟨hax, hby⟩ := isFinite_of_add64 hab
  obtain ⟨ha, hx⟩ := isFinite_of_mul64 hax
  obtain ⟨hb, hy⟩ := isFinite_of_mul64 hby
  exact ⟨⟨ha, hb, (isFinite_of_mul64 hc).1⟩, hx, hy⟩

/-! ## The Sampson distance -/

section Sampson

variable {f : Matrix3 Float} {p q : Point Float} {r : Float}

theorem hasSign_sampson? (h : sampson? f p q = some r) : HasSign .positive (unpack64 r) := by
  unfold sampson? at h
  simp only at h
  split at h
  · cases h
  · cases h
    refine hasSign_div64 (hasSign_square64 _) ?_
    exact hasSign_add64 (hasSign_add64 (hasSign_add64 (hasSign_square64 _) (hasSign_square64 _))
      (hasSign_square64 _)) (hasSign_square64 _)

/-- The numerator alone gives away every entry and every coordinate, so nothing need be known of the
denominator. -/
theorem isFinite_of_sampson? (h : sampson? f p q = some r) (hfinite : r.isFinite = true) :
    ∀ x ∈ f.columns ++ [p.x, p.y, q.x, q.y], x.isFinite = true := by
  unfold sampson? at h
  simp only at h
  split at h
  · cases h
  · cases h
    have hincidence := (isFinite_of_mul64 (isFinite_of_div64 hfinite)).1
    obtain ⟨hxy, hz⟩ := isFinite_of_add64 hincidence
    obtain ⟨hx, hy⟩ := isFinite_of_add64 hxy
    obtain ⟨hqx, hfirst⟩ := isFinite_of_mul64 hx
    obtain ⟨hqy, hsecond⟩ := isFinite_of_mul64 hy
    obtain ⟨⟨h00, h01, h02⟩, hpx, hpy⟩ := isFinite_of_row hfirst
    obtain ⟨⟨h10, h11, h12⟩, -⟩ := isFinite_of_row hsecond
    obtain ⟨⟨h20, h21, h22⟩, -⟩ := isFinite_of_row (isFinite_of_mul64 hz).2
    simp [Matrix3.columns, *]

theorem sampson_of_not_isFinite
    (hbad : ∃ x ∈ f.columns ++ [p.x, p.y, q.x, q.y], x.isFinite = false) :
    sampson f p q = infinity64 :=
  finiteOrInfinity_of_not_isFinite hbad fun _ => isFinite_of_sampson?

end Sampson

/-- Coordinates are widened before use, and stay finite or not. -/
theorem exists_not_isFinite_widen {entries : List Float} {p q : Point Float32}
    (h : (∃ x ∈ entries, x.isFinite = false) ∨
      ∃ x ∈ [p.x, p.y, q.x, q.y], x.isFinite = false) :
    ∃ x ∈ entries ++ [(p.map widen).x, (p.map widen).y, (q.map widen).x, (q.map widen).y],
      x.isFinite = false := by
  rcases h with ⟨x, hmem, hx⟩ | ⟨x, hmem, hx⟩
  · exact ⟨x, List.mem_append_left _ hmem, hx⟩
  · refine ⟨widen x, List.mem_append_right _ ?_, (isFinite_widen x).trans hx⟩
    exact List.mem_map_of_mem hmem

/-- **The Sampson distance is total and closed against bad data.** It is infinity or a finite number
with a clear sign bit, whatever the bits of its thirteen inputs; it is infinity as soon as one of
them is not finite, and then a filter with a finite threshold rejects the pair. -/
theorem sampson_closed_against_bad_data :
    (∀ (f : Matrix3 Float) (p q : Point Float),
      IsDistance (sampson f p q) ∧ (sampson f p q).isNaN = false ∧ sampson f p q ≠ -0) ∧
    (∀ (f : Matrix3 Float) (p q : Point Float),
      (∃ x ∈ f.columns ++ [p.x, p.y, q.x, q.y], x.isFinite = false) →
        sampson f p q = infinity64) ∧
    ∀ (f : Matrix3 Float) (maxResidual : Float) (p q : Point Float32),
      maxResidual.isFinite = true →
      (∃ x ∈ f.columns, x.isFinite = false) ∨ (∃ x ∈ [p.x, p.y, q.x, q.y], x.isFinite = false) →
        (Filter.epipolar f maxResidual).rejects p q = true := by
  refine ⟨fun f p q => ?_, fun f p q => sampson_of_not_isFinite, fun f maxResidual p q hmax h => ?_⟩
  · have hdistance : IsDistance (sampson f p q) :=
      isDistance_finiteOrInfinity fun r => hasSign_sampson?
    exact ⟨hdistance, hdistance.isNaN, hdistance.ne_neg_zero⟩
  · rw [Filter.rejects, Filter.residual?_epipolar,
      sampson_of_not_isFinite (exists_not_isFinite_widen h)]
    exact exceeds_infinity hmax

/-- A NaN in the corner that only the numerator reads, and an infinite coordinate. -/
theorem sampson_closed_against_bad_data_corner_entry :
    sampson ⟨0, 0, 0, 0, 0, -1, 0, 1, 0 / 0⟩ ⟨10, 5⟩ ⟨42, 5⟩ = infinity64 ∧
      (Filter.epipolar ⟨0, 0, 0, 0, 0, -1, 0, 1, 0⟩ 16).rejects ⟨10, 5⟩ ⟨1 / 0, 5⟩ = true := by
  obtain ⟨-, hinfinite, hrejects⟩ := sampson_closed_against_bad_data
  refine ⟨hinfinite _ _ _ ⟨0 / 0, ?_, by decide +kernel⟩, hrejects _ _ _ _ (by decide +kernel) ?_⟩
  · simp [Matrix3.columns]
  · exact .inr ⟨1 / 0, by simp, by decide +kernel⟩

/-! ## The transfer distance -/

section Transfer

variable {h : Matrix3 Float} {p q : Point Float} {r : Float}

theorem hasSign_transfer? (hr : transfer? h p q = some r) : HasSign .positive (unpack64 r) := by
  unfold transfer? at hr
  simp only at hr
  split at hr
  · cases hr
  · cases hr
    exact hasSign_add64 (hasSign_square64 _) (hasSign_square64 _)

/-- The two quotients are finite, and with them their numerators; of the depth nothing follows. -/
theorem isFinite_of_transfer? (hr : transfer? h p q = some r) (hfinite : r.isFinite = true) :
    ((h.apply p).x / (h.apply p).z).isFinite = true ∧
      ((h.apply p).y / (h.apply p).z).isFinite = true ∧ q.x.isFinite = true ∧
        q.y.isFinite = true := by
  unfold transfer? at hr
  simp only at hr
  split at hr
  · cases hr
  · cases hr
    obtain ⟨hx, hy⟩ := isFinite_of_add64 hfinite
    obtain ⟨hquotient, hqx⟩ := isFinite_of_sub64 (isFinite_of_mul64 hx).1
    obtain ⟨hquotient', hqy⟩ := isFinite_of_sub64 (isFinite_of_mul64 hy).1
    exact ⟨hquotient, hquotient', hqx, hqy⟩

/-- The image of a point at an infinite depth, with two components that are numbers. -/
structure VanishesInDepth (h : Matrix3 Float) (p : Point Float) : Prop where
  depth : (h.apply p).z.isInf = true
  isFinite_x : (h.apply p).x.isFinite = true
  isFinite_y : (h.apply p).y.isFinite = true

/-- **An infinite depth leaves no trace of the image.** Both quotients are zeros, of either sign,
and the residual is the squared distance of `q` from the origin. -/
theorem VanishesInDepth.transfer_eq (hdepth : VanishesInDepth h p) :
    transfer h p q = finiteOrInfinity (some (q.x * q.x + q.y * q.y)) := by
  obtain ⟨s, hx⟩ := unpack64_div_of_isInf hdepth.isFinite_x hdepth.depth
  obtain ⟨s', hy⟩ := unpack64_div_of_isInf hdepth.isFinite_y hdepth.depth
  unfold transfer transfer?
  have hne := ne_zero_of_not_isFinite (not_isFinite_of_isInf hdepth.depth)
  simp only [hne, Bool.false_eq_true, if_false, square_zero_sub hx, square_zero_sub hy]

/-- Bad data is noticed at every other depth. -/
theorem transfer_of_not_isFinite
    (hbad : ∃ x ∈ h.columns ++ [p.x, p.y, q.x, q.y], x.isFinite = false)
    (hdepth : ¬VanishesInDepth h p) : transfer h p q = infinity64 := by
  refine finiteOrInfinity_of_not_isFinite hbad fun r hr hfinite => ?_
  obtain ⟨hquotient, hquotient', hqx, hqy⟩ := isFinite_of_transfer? hr hfinite
  have hfirst := isFinite_of_div64 hquotient
  have hsecond := isFinite_of_div64 hquotient'
  -- Finite quotients by a depth that is not a number show that it is an infinity.
  have hthird : (h.apply p).z.isFinite = true := by
    by_contra hz
    refine hdepth ⟨?_, hfirst, hsecond⟩
    by_contra hinf
    rw [not_isFinite_div (Bool.eq_false_iff.mpr hz) fun hnot => hinf hnot.1] at hquotient
    cases hquotient
  obtain ⟨⟨h00, h01, h02⟩, hpx, hpy⟩ := isFinite_of_row hfirst
  obtain ⟨⟨h10, h11, h12⟩, -⟩ := isFinite_of_row hsecond
  obtain ⟨⟨h20, h21, h22⟩, -⟩ := isFinite_of_row hthird
  simp [Matrix3.columns, *]

/-- The points, and what the depth is not computed from, are noticed at every depth. -/
theorem transfer_of_not_isFinite_above
    (hbad : ∃ x ∈ [h.m00, h.m01, h.m02, h.m10, h.m11, h.m12] ++ [p.x, p.y, q.x, q.y],
      x.isFinite = false) : transfer h p q = infinity64 := by
  refine finiteOrInfinity_of_not_isFinite hbad fun r hr hfinite => ?_
  obtain ⟨hquotient, hquotient', hqx, hqy⟩ := isFinite_of_transfer? hr hfinite
  obtain ⟨⟨h00, h01, h02⟩, hpx, hpy⟩ := isFinite_of_row (isFinite_of_div64 hquotient)
  obtain ⟨⟨h10, h11, h12⟩, -⟩ := isFinite_of_row (isFinite_of_div64 hquotient')
  simp [*]

end Transfer

/-- **The transfer distance is total, and closed against bad data but for the depth.** It is
infinity or a finite number with a clear sign bit, whatever the bits of its thirteen inputs. If one
of them is not finite, it is infinity unless the image vanishes in depth, and then it is the squared
distance of `q` from the origin. So a coordinate or an entry of the first two rows that is not
finite always makes it infinity, but with one in the third row a filter accepts the pairs whose
image vanishes and whose second point is close to the origin. -/
theorem transfer_closed_but_for_depth (h : Matrix3 Float) :
    (∀ p q : Point Float, IsDistance (transfer h p q) ∧ (transfer h p q).isNaN = false) ∧
    (∀ p q : Point Float, (∃ x ∈ h.columns ++ [p.x, p.y, q.x, q.y], x.isFinite = false) →
      (¬VanishesInDepth h p → transfer h p q = infinity64) ∧
      (VanishesInDepth h p →
        transfer h p q = finiteOrInfinity (some (q.x * q.x + q.y * q.y)))) ∧
    (∀ p q : Point Float,
      (∃ x ∈ [h.m00, h.m01, h.m02, h.m10, h.m11, h.m12] ++ [p.x, p.y, q.x, q.y],
        x.isFinite = false) → transfer h p q = infinity64) ∧
    ∀ (maxResidual : Float) (p q : Point Float32), maxResidual.isFinite = true →
      (∃ x ∈ h.columns, x.isFinite = false) ∨ (∃ x ∈ [p.x, p.y, q.x, q.y], x.isFinite = false) →
      ((Filter.homography h maxResidual).rejects p q = false ↔
        VanishesInDepth h (p.map widen) ∧
          widen q.x * widen q.x + widen q.y * widen q.y ≤ maxResidual) := by
  refine ⟨fun p q => ?_, fun p q hbad => ?_, fun p q => transfer_of_not_isFinite_above,
    fun maxResidual p q hmax hbad => ?_⟩
  · have hdistance : IsDistance (transfer h p q) :=
      isDistance_finiteOrInfinity fun r => hasSign_transfer?
    exact ⟨hdistance, hdistance.isNaN⟩
  · exact ⟨transfer_of_not_isFinite hbad, fun hdepth => hdepth.transfer_eq⟩
  · rw [Filter.rejects, Filter.residual?_homography]
    by_cases hdepth : VanishesInDepth h (p.map widen)
    · rw [hdepth.transfer_eq, exceeds_finiteOrInfinity_eq_false_iff
        (hasSign_add64 (hasSign_square64 _) (hasSign_square64 _)) hmax]
      simp only [hdepth, true_and]
      exact Iff.rfl
    · rw [transfer_of_not_isFinite (exists_not_isFinite_widen hbad) hdepth, exceeds_infinity hmax]
      simp [hdepth]

/-- A NaN in the first row, an infinite coordinate, and two depths that are not finite: one NaN, and
one infinite for which the residual of `(1, 2)` is 5. -/
theorem transfer_closed_but_for_depth_cases :
    transfer ⟨0 / 0, 0, 0, 0, 1, 0, 0, 0, 1⟩ ⟨3, 4⟩ ⟨1, 2⟩ = infinity64 ∧
      (Filter.homography ⟨1, 0, 0, 0, 1, 0, 0, 0, 1⟩ 16).rejects ⟨3, 1 / 0⟩ ⟨1, 2⟩ = true ∧
      transfer ⟨1, 0, 0, 0, 1, 0, 0, 0, 0 / 0⟩ ⟨3, 4⟩ ⟨1, 2⟩ = infinity64 ∧
      transfer ⟨1, 0, 0, 0, 1, 0, 0, 0, 1 / 0⟩ ⟨3, 4⟩ ⟨1, 2⟩ = 5 := by
  have hmem (e : Float) : e ∈ (⟨1, 0, 0, 0, 1, 0, 0, 0, e⟩ : Matrix3 Float).columns ++
      [3, 4, 1, 2] := by simp [Matrix3.columns]
  obtain ⟨-, -, habove, -⟩ := transfer_closed_but_for_depth ⟨0 / 0, 0, 0, 0, 1, 0, 0, 0, 1⟩
  obtain ⟨-, -, -, hfilter⟩ := transfer_closed_but_for_depth ⟨1, 0, 0, 0, 1, 0, 0, 0, 1⟩
  obtain ⟨-, hnan, -⟩ := transfer_closed_but_for_depth ⟨1, 0, 0, 0, 1, 0, 0, 0, 0 / 0⟩
  obtain ⟨-, hinfinite, -⟩ := transfer_closed_but_for_depth ⟨1, 0, 0, 0, 1, 0, 0, 0, 1 / 0⟩
  refine ⟨habove _ _ ⟨0 / 0, by simp, by decide +kernel⟩, ?_, ?_, ?_⟩
  · rw [← Bool.not_eq_false,
      hfilter 16 _ _ (by decide +kernel) (.inr ⟨1 / 0, by simp, by decide +kernel⟩)]
    exact fun hnot => absurd hnot.1.depth (by decide +kernel)
  · refine (hnan ⟨3, 4⟩ ⟨1, 2⟩ ⟨0 / 0, hmem _, by decide +kernel⟩).1 fun hdepth => ?_
    exact absurd hdepth.depth (by decide +kernel)
  · rw [(hinfinite ⟨3, 4⟩ ⟨1, 2⟩ ⟨1 / 0, hmem _, by decide +kernel⟩).2
      ⟨by decide +kernel, by decide +kernel, by decide +kernel⟩]
    decide +kernel

/-- **An infinite entry that is not noticed.** The homography sends `(3, 4)` to depth `∞`; the
residual of `(1, 2)` is a number, and a threshold of 4 pixels lets the pair through. -/
theorem infinite_depth_accepts :
    (1 / 0 : Float) ∈ (⟨1, 0, 0, 0, 1, 0, 0, 0, 1 / 0⟩ : Matrix3 Float).columns ∧
      (1 / 0 : Float).isFinite = false ∧ (16 : Float).isFinite = true ∧
      transfer ⟨1, 0, 0, 0, 1, 0, 0, 0, 1 / 0⟩ ⟨3, 4⟩ ⟨1, 2⟩ ≠ infinity64 ∧
      (Filter.homography ⟨1, 0, 0, 0, 1, 0, 0, 0, 1 / 0⟩ 16).rejects ⟨3, 4⟩ ⟨1, 2⟩ = false := by
  refine ⟨by simp [Matrix3.columns], ?_, ?_, ?_, ?_⟩ <;> decide +kernel

end Residual

end FeatureMatching
