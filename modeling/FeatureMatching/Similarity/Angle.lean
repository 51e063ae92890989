import FeatureMatching.Numeric.Trigonometry

/-!
# From a similarity to an angle

A similarity is an integer near `512² · cos θ`. Matching compares angles, not similarities, so that
the ratio of two of them means the same everywhere on the sphere. Rounding a descriptor to bytes can
push a similarity past `512²`; the quotient is clamped to `[-1, 1]`, so such a pair has the angle of
equal descriptors.

The arc cosine is a parameter, an instance that everything built on angles passes on. The library
has one, `ArcCosine.standard`; which laws matching needs of it is a matter of its theory.
-/

set_option autoImplicit false

namespace FeatureMatching

open Numeric

/-- The similarity of two equal descriptors, had they not been rounded. -/
def fullSimilarity : Float32 := 262144

/-- The nearest value of `[-1, 1]`. -/
def clampUnit (value : Float32) : Float32 :=
  if value < -1 then -1 else if 1 < value then 1 else value

/-- The cosine that a similarity stands for. -/
def cosineOf (similarity : Int32) : Float32 :=
  clampUnit (ofInteger32 similarity.toInt / fullSimilarity)

/-- The arc cosine that angles are taken with. -/
class ArcCosine where
  /-- The angle of `[0, π]` whose cosine is the argument. -/
  arccos : Float32 → Float32

/-- The arc cosine of the library. -/
instance ArcCosine.standard : ArcCosine := ⟨arccos32⟩

/-- The angle in radians that a similarity stands for. -/
def angle [ArcCosine] (similarity : Int32) : Float32 := ArcCosine.arccos (cosineOf similarity)

end FeatureMatching
