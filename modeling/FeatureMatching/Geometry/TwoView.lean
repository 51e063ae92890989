import FeatureMatching.Correspondence
import FeatureMatching.Geometry.Projective

/-!
# Two-view geometry

What is known about how two images are related: a configuration, which says what kind of model was
found, the two candidate matrices, and the correspondences that agree with it. Only five of the nine
configurations come with a model that a pair can be tested against.
-/

set_option autoImplicit false

namespace FeatureMatching

/-- The kind of relation between two images. -/
inductive Configuration where
  /-- Nothing has been estimated. -/
  | undefined
  /-- Estimation failed, or too few correspondences agreed. -/
  | degenerate
  /-- An essential matrix, for cameras with known intrinsics. -/
  | calibrated
  /-- A fundamental matrix, for cameras with unknown intrinsics. -/
  | uncalibrated
  /-- A homography induced by a plane in the scene. -/
  | planar
  /-- A homography of a camera that only turned. -/
  | panoramic
  /-- A homography of one kind or the other. -/
  | planarOrPanoramic
  /-- A shift along the image border, as a watermark gives. -/
  | watermark
  /-- Several models at once. -/
  | multiple
deriving DecidableEq, Repr, Inhabited

namespace Configuration

def all : List Configuration :=
  [.undefined, .degenerate, .calibrated, .uncalibrated, .planar, .panoramic, .planarOrPanoramic,
    .watermark, .multiple]

def name : Configuration → String
  | .undefined => "Undefined"
  | .degenerate => "Degenerate"
  | .calibrated => "Calibrated"
  | .uncalibrated => "Uncalibrated"
  | .planar => "Planar"
  | .panoramic => "Panoramic"
  | .planarOrPanoramic => "PlanarOrPanoramic"
  | .watermark => "Watermark"
  | .multiple => "Multiple"

/-- The configuration of a written name; case matters. -/
def ofName? (name : String) : Option Configuration := all.find? fun c => c.name == name

/-- Whether the fundamental matrix describes the relation. -/
def isEpipolar : Configuration → Bool
  | .calibrated | .uncalibrated => true
  | _ => false

/-- Whether the homography describes the relation. -/
def isHomography : Configuration → Bool
  | .planar | .panoramic | .planarOrPanoramic => true
  | _ => false

theorem ofName?_name (c : Configuration) : ofName? c.name = some c := by
  cases c <;> rfl

end Configuration

/-- A relation between two images and the correspondences that agree with it. -/
structure TwoView where
  configuration : Configuration
  /-- Sends points of the first image to lines of the second. -/
  fundamental : Matrix3 Float
  /-- Sends points of the first image to points of the second. -/
  homography : Matrix3 Float
  /-- The correspondences found under this relation. -/
  inliers : List Correspondence

namespace TwoView

/-- A relation about which nothing is known. -/
def unknown : TwoView := ⟨.undefined, .identity, .identity, []⟩

end TwoView

end FeatureMatching
