import FeatureMatching.Similarity.Comparison
import FeatureMatching.Geometry.Filter
import FeatureMatching.Event

/-!
# Matching two images

Two images are matched by comparing every two descriptors and searching the similarity matrix. With
a two-view geometry at hand the search is **guided**: pairs whose positions disagree with the
geometry are masked first.

Everything that can be asked of guided matching comes from one run of it, `guidedSearch`: the
correspondences, the geometry with new inliers, and the events. The order of its checks is the order
in which a caller sees its faults: the options, then whether there is a model at all, which is not a
fault, then the two images.
-/

set_option autoImplicit false

namespace FeatureMatching

variable [ArcCosine]

/-! ## By descriptors alone -/

/-- Compares two lists of descriptors and searches the result. -/
def plainSearch (a b : Array Descriptor) (options : Options) : Except Fault Search := do
  options.validate
  return (SimilarityMatrix.ofDescriptors a b).search options.thresholds options.crossCheck

/-- The correspondences between two lists of descriptors. -/
def matchDescriptors (a b : Array Descriptor) (options : Options) :
    Except Fault (List Correspondence) :=
  (plainSearch a b options).map Search.found

/-- What matching by descriptors alone reports; a call that fails reports nothing. -/
def plainEvents : Except Fault Search → List Event
  | .ok s => [s.event, .matched s.rows s.cols s.found.length]
  | .error _ => []

/-! ## Guided by a geometry -/

/-- Compares two images under a geometry and searches the result; `none` if the geometry has no
model. -/
def guidedSearch (a b : Features) (geometry : TwoView) (options : Options) :
    Except Fault (Option Search) := do
  options.validate
  let filter := Filter.ofGeometry geometry options.maxError
  if filter.isSupported then
    let m ← SimilarityMatrix.ofFeatures filter.rejects a b
    return some (m.search options.thresholds options.crossCheck)
  else return none

/-- The correspondences between two images that agree with a geometry; none at all if the geometry
has no model. -/
def matchGuided (a b : Features) (geometry : TwoView) (options : Options) :
    Except Fault (List Correspondence) :=
  (guidedSearch a b geometry options).map fun found => (found.map Search.found).getD []

/-- The geometry after a guided run: a run that searched replaces the inliers, any other changes
nothing. -/
def TwoView.updated (geometry : TwoView) : Except Fault (Option Search) → TwoView
  | .ok (some s) => { geometry with inliers := s.found }
  | _ => geometry

/-- Replaces the inliers of a geometry by the correspondences that agree with it. -/
def refineInliers (a b : Features) (geometry : TwoView) (options : Options) :
    Except Fault Unit × TwoView :=
  let outcome := guidedSearch a b geometry options
  (outcome.map fun _ => (), geometry.updated outcome)

/-- What a guided run reports; a run that fails reports nothing. -/
def guidedEvents (geometry : TwoView) : Except Fault (Option Search) → List Event
  | .ok (some s) => [s.event, .guided geometry.configuration s.rows s.cols s.found.length]
  | .ok none => [.skipped geometry.configuration]
  | .error _ => []

end FeatureMatching
