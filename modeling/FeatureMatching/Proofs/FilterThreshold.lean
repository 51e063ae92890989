import Mathlib
import FeatureMatching.Geometry.Filter
import FeatureMatching.Proofs.Float.Binary

/-!
# A smaller threshold rejects more

The filter compares a squared residual with the square of the threshold, and that square is a
rounded product: it may overflow to infinity or vanish to zero. It is still monotone in the
threshold, so a pair that is rejected for one threshold is rejected for every smaller positive one
(`Filter.rejects_of_le`), whatever the residual is.
-/

set_option autoImplicit false

namespace FeatureMatching

namespace Filter

open Numeric

@[simp] theorem exceeds_some (r threshold : Float) :
    exceeds (some r) threshold = decide (threshold < r) := rfl

@[simp] theorem residual?_epipolar (fundamental : Matrix3 Float) (maxResidual : Float)
    (p q : Point Float32) :
    (epipolar fundamental maxResidual).residual? p q =
      some (Residual.sampson fundamental (p.map widen) (q.map widen)) := rfl

@[simp] theorem residual?_homography (homography : Matrix3 Float) (maxResidual : Float)
    (p q : Point Float32) :
    (Filter.homography homography maxResidual).residual? p q =
      some (Residual.transfer homography (p.map widen) (q.map widen)) := rfl

/-- The two kinds of model differ in the residual only. -/
theorem rejects_ofGeometry (geometry : TwoView) (maxError : Float) (p q : Point Float32) :
    (ofGeometry geometry maxError).rejects p q =
      exceeds ((ofGeometry geometry maxError).residual? p q) (maxError * maxError) := by
  unfold ofGeometry
  split
  · rfl
  · split <;> rfl

theorem residual?_congr (geometry : TwoView) (maxError maxError' : Float) (p q : Point Float32) :
    (ofGeometry geometry maxError).residual? p q =
      (ofGeometry geometry maxError').residual? p q := by
  unfold ofGeometry
  split
  · rw [residual?_epipolar, residual?_epipolar]
  · split
    · rw [residual?_homography, residual?_homography]
    · rfl

/-- **A smaller threshold rejects more.** Only the threshold differs between the two filters; the
model and with it the residual are the same. -/
theorem rejects_of_le {geometry : TwoView} {maxError maxError' : Float} (hpos : 0 < maxError')
    (h : maxError' ≤ maxError) {p q : Point Float32}
    (hrejects : (ofGeometry geometry maxError).rejects p q = true) :
    (ofGeometry geometry maxError').rejects p q = true := by
  rw [rejects_ofGeometry] at hrejects ⊢
  rw [residual?_congr geometry maxError' maxError]
  cases hresidual : (ofGeometry geometry maxError).residual? p q with
  | none => rw [hresidual] at hrejects; cases hrejects
  | some r =>
    rw [hresidual, exceeds_some, decide_eq_true_eq] at hrejects
    rw [exceeds_some, decide_eq_true_eq]
    exact lt_of_le_of_lt64 (square_le_square64 hpos h) hrejects

theorem isSupported_congr (geometry : TwoView) (maxError maxError' : Float) :
    (ofGeometry geometry maxError).isSupported = (ofGeometry geometry maxError').isSupported := by
  rw [isSupported_ofGeometry, isSupported_ofGeometry]

end Filter

end FeatureMatching
