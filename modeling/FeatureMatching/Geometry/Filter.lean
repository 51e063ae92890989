import FeatureMatching.Geometry.Residual
import FeatureMatching.Geometry.TwoView

/-!
# The geometric filter

A two-view geometry and a pixel threshold decide which pairs of positions are ruled out before
matching. Residuals are squared distances, so the threshold is squared too. A pair is rejected when
its residual is strictly above it: a pair exactly on the threshold is kept.
-/

set_option autoImplicit false

namespace FeatureMatching

/-- A test for pairs of positions. -/
inductive Filter where
  /-- Test the Sampson distance to a fundamental matrix. -/
  | epipolar (fundamental : Matrix3 Float) (maxResidual : Float)
  /-- Test the transfer distance under a homography. -/
  | homography (homography : Matrix3 Float) (maxResidual : Float)
  /-- There is no model to test against. -/
  | unsupported

namespace Filter

/-- The filter of a geometry, for a threshold in pixels. -/
def ofGeometry (geometry : TwoView) (maxError : Float) : Filter :=
  if geometry.configuration.isEpipolar then .epipolar geometry.fundamental (maxError * maxError)
  else if geometry.configuration.isHomography then
    .homography geometry.homography (maxError * maxError)
  else .unsupported

/-- Whether there is a model to test against. -/
def isSupported : Filter → Bool
  | .unsupported => false
  | _ => true

theorem isSupported_ofGeometry (geometry : TwoView) (maxError : Float) :
    (ofGeometry geometry maxError).isSupported =
      (geometry.configuration.isEpipolar || geometry.configuration.isHomography) := by
  unfold ofGeometry
  split
  · simp [isSupported, *]
  · split <;> simp [isSupported, *]

/-- The squared residual of a pair of positions, if there is a model. -/
def residual? (filter : Filter) (p q : Point Float32) : Option Float :=
  match filter with
  | .epipolar f _ => some (Residual.sampson f (p.map Numeric.widen) (q.map Numeric.widen))
  | .homography h _ => some (Residual.transfer h (p.map Numeric.widen) (q.map Numeric.widen))
  | .unsupported => none

/-- Whether a residual is strictly above a threshold. -/
def exceeds (residual : Option Float) (threshold : Float) : Bool :=
  match residual with
  | some r => decide (threshold < r)
  | none => false

/-- Whether a pair of positions is ruled out. Without a model none is. -/
def rejects (filter : Filter) (p q : Point Float32) : Bool :=
  match filter with
  | .epipolar _ maxResidual | .homography _ maxResidual =>
    exceeds (filter.residual? p q) maxResidual
  | .unsupported => false

end Filter

end FeatureMatching
