import FeatureMatching.Numeric.Trigonometry
import FeatureMatching.Numeric.Hypotenuse
import FeatureMatching.Geometry.Projective

/-!
# Keypoints

A keypoint is a position in an image with a local affine frame, the 2 × 2 matrix
`[[a11, a12], [a21, a22]]` whose columns are the images of the unit axes. Matching reads the
position only; the frame describes the shape of the detected region and is carried along, with the
usual summaries of it: the two axis lengths, their mean, the direction of the first axis and the
skew of the second.

The functions that make and summarise a frame are a parameter, an instance of `Trigonometry`. The
library has one, `Trigonometry.standard`.
-/

set_option autoImplicit false

namespace FeatureMatching

open Numeric

/-- A detected position with its local affine frame. -/
structure Keypoint where
  /-- Horizontal pixel coordinate. -/
  x : Float32
  /-- Vertical pixel coordinate. -/
  y : Float32
  /-- Horizontal component of the first axis. -/
  a11 : Float32
  /-- Horizontal component of the second axis. -/
  a12 : Float32
  /-- Vertical component of the first axis. -/
  a21 : Float32
  /-- Vertical component of the second axis. -/
  a22 : Float32
deriving DecidableEq

/-- The functions that a frame is made and summarised with. -/
class Trigonometry where
  sine : Float32 → Float32
  cosine : Float32 → Float32
  /-- The direction of the vector whose vertical component is the first argument. -/
  arctan : Float32 → Float32 → Float32
  hypotenuse : Float32 → Float32 → Float32

/-- The functions of the library. -/
instance Trigonometry.standard : Trigonometry := ⟨sin32, cos32, arctan32, hypot32⟩

namespace Keypoint

open Trigonometry

/-- A keypoint whose frame is the identity. -/
def upright (x y : Float32) : Keypoint := ⟨x, y, 1, 0, 0, 1⟩

/-- The upright keypoint at the origin. -/
def origin : Keypoint := upright 0 0

/-- The position. -/
def location (k : Keypoint) : Point Float32 := ⟨k.x, k.y⟩

/-- The keypoint with the same frame at another position. -/
def moveTo (k : Keypoint) (p : Point Float32) : Keypoint := { k with x := p.x, y := p.y }

section Frame

variable [Trigonometry]

/-- A keypoint whose frame is a rotation by `orientation` radians, enlarged by `scale`. -/
def ofScaleOrientation (x y scale orientation : Float32) : Keypoint :=
  let s := sine orientation
  let c := cosine orientation
  ⟨x, y, scale * c, -scale * s, scale * s, scale * c⟩

/-- The length of the first axis. -/
def scaleX (k : Keypoint) : Float32 := hypotenuse k.a11 k.a21

/-- The length of the second axis. -/
def scaleY (k : Keypoint) : Float32 := hypotenuse k.a12 k.a22

/-- The mean length of the two axes. -/
def scale (k : Keypoint) : Float32 := 0.5 * (k.scaleX + k.scaleY)

/-- The direction of the first axis, in radians. -/
def orientation (k : Keypoint) : Float32 := arctan k.a21 k.a11

/-- How far the second axis is from being a quarter turn ahead of the first, in radians. -/
def shear (k : Keypoint) : Float32 := arctan (-k.a12) k.a22 - k.orientation

end Frame

/-- Whether two keypoints are numerically equal: a NaN equals nothing, and zeros of either sign are
the same. -/
def equals (k l : Keypoint) : Bool :=
  k.x == l.x && k.y == l.y && k.a11 == l.a11 && k.a12 == l.a12 && k.a21 == l.a21 && k.a22 == l.a22

end Keypoint

end FeatureMatching
