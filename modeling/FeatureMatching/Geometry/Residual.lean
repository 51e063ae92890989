import FeatureMatching.Geometry.Projective
import FeatureMatching.Numeric.Rounding

/-!
# How far a pair of points is from a two-view model

A fundamental matrix sends a point of the first image to the line of the second on which its partner
must lie; a homography sends it to its partner. The residual is a squared distance in pixels: the
Sampson distance for the first, the transfer distance for the second. Neither changes when the
matrix is scaled, in exact arithmetic.

Both are quotients, and a zero denominator means a degenerate pair: the two lines vanish, or the
point is sent to infinity. The generic definitions answer `none` there. The binary64 residuals turn
that, and every overflow and NaN, into infinity, which a finite threshold never accepts.
-/

set_option autoImplicit false

namespace FeatureMatching

namespace Residual

section Generic

variable {α : Type} [Add α] [Mul α] [Div α] [BEq α] [OfNat α 0] [OfNat α 1]

/-- The squared Sampson distance of the pair `(p, q)` to a fundamental matrix: the squared
incidence `qᵀ F p` over the squared gradient of that form in the four coordinates. -/
def sampson? (fundamental : Matrix3 α) (p q : Point α) : Option α :=
  let line := fundamental.apply p
  let back := fundamental.transpose.apply q
  let gradient := line.x * line.x + line.y * line.y + back.x * back.x + back.y * back.y
  if gradient == 0 then none
  else
    let incidence := q.x * line.x + q.y * line.y + 1 * line.z
    some (incidence * incidence / gradient)

/-- The squared distance between `q` and the image of `p` under a homography. -/
def transfer? [Sub α] (homography : Matrix3 α) (p q : Point α) : Option α :=
  let image := homography.apply p
  if image.z == 0 then none
  else
    let dx := image.x / image.z - q.x
    let dy := image.y / image.z - q.y
    some (dx * dx + dy * dy)

end Generic

/-- A residual that is a finite number, and infinity otherwise. -/
def finiteOrInfinity : Option Float → Float
  | some residual => if residual.isFinite then residual else Numeric.infinity64
  | none => Numeric.infinity64

/-- The squared Sampson distance in binary64. -/
def sampson (fundamental : Matrix3 Float) (p q : Point Float) : Float :=
  finiteOrInfinity (sampson? fundamental p q)

/-- The squared transfer distance in binary64. -/
def transfer (homography : Matrix3 Float) (p q : Point Float) : Float :=
  finiteOrInfinity (transfer? homography p q)

end Residual

end FeatureMatching
