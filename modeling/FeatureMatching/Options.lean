import FeatureMatching.Similarity.Nearest

/-!
# Options

One options value serves a whole reconstruction pipeline: the thresholds that matching reads, and
the settings of the robust estimation that produces the two-view geometry in the first place. All of
them are checked together.

The check is a list of conditions in a fixed order, and the first one that fails is reported. Each
is written as the condition that has to hold, so a NaN, which satisfies no comparison, fails it.
-/

set_option autoImplicit false

namespace FeatureMatching

/-- The settings of matching and of the estimation it is part of. -/
structure Options where
  /-- The largest ratio between the angles of the nearest and the second nearest descriptor. -/
  maxRatio : Float32
  /-- The largest angle between matched descriptors, in radians. -/
  maxDistance : Float32
  /-- Keep only features that are each other's nearest. -/
  crossCheck : Bool
  /-- The largest number of matches. -/
  maxNumMatches : Nat
  /-- The largest geometric error, in pixels. -/
  maxError : Float
  /-- The confidence at which the estimation may stop. -/
  confidence : Float
  /-- The least number of trials of the estimation. -/
  minNumTrials : Nat
  /-- The largest number of trials of the estimation. -/
  maxNumTrials : Nat
  /-- The part of the correspondences that is expected to be right. -/
  minInlierRatio : Float
  /-- The least number of correspondences that support a geometry. -/
  minNumInliers : Nat
  /-- Look for several models. -/
  multipleModels : Bool
  /-- Match a second time, guided by the geometry. -/
  guidedMatching : Bool
deriving DecidableEq

namespace Options

/-- The settings used where nothing else is asked for. -/
def standard : Options where
  maxRatio := 0.8
  maxDistance := 0.7
  crossCheck := true
  maxNumMatches := 32768
  maxError := 4
  confidence := 0.999
  minNumTrials := 100
  maxNumTrials := 10000
  minInlierRatio := 0.25
  minNumInliers := 15
  multipleModels := false
  guidedMatching := false

/-- The limits that a search has to respect. -/
def thresholds (o : Options) : Thresholds := ⟨o.maxRatio, o.maxDistance⟩

/-- A condition on the options that does not hold, with the values that it fails for. -/
inductive Violation where
  | maxRatio (got : Float32)
  | maxDistance (got : Float32)
  | maxError (got : Float)
  | maxNumMatches
  | maxNumTrials
  | minNumTrials (limit got : Nat)
  | minInlierRatio (got : Float)
  | confidence (got : Float)
deriving DecidableEq

/-- The conditions in the order in which they are checked, each with what is reported if it
fails. -/
def conditions (o : Options) : List (Bool × Violation) :=
  [(decide (0 < o.maxRatio), .maxRatio o.maxRatio),
   (decide (0 < o.maxDistance), .maxDistance o.maxDistance),
   (decide (0 < o.maxError), .maxError o.maxError),
   (decide (0 < o.maxNumMatches), .maxNumMatches),
   (decide (0 < o.maxNumTrials), .maxNumTrials),
   (decide (o.minNumTrials ≤ o.maxNumTrials), .minNumTrials o.maxNumTrials o.minNumTrials),
   (decide (0 ≤ o.minInlierRatio) && decide (o.minInlierRatio ≤ 1),
     .minInlierRatio o.minInlierRatio),
   (decide (0 < o.confidence) && decide (o.confidence ≤ 1), .confidence o.confidence)]

def violation? (o : Options) : Option Violation :=
  (o.conditions.find? fun condition => !condition.1).map (·.2)

def Valid (o : Options) : Prop := o.violation? = none

instance (o : Options) : Decidable o.Valid := inferInstanceAs (Decidable (_ = _))

/-! ## Changing one setting -/

/-- A change to one setting; the two trial counts are changed together. -/
inductive Setting where
  | maxRatio (value : Float32)
  | maxDistance (value : Float32)
  | crossCheck (value : Bool)
  | maxNumMatches (value : Nat)
  | maxError (value : Float)
  | confidence (value : Float)
  | numTrials (least largest : Nat)
  | minInlierRatio (value : Float)
  | minNumInliers (value : Nat)
  | multipleModels (value : Bool)
  | guidedMatching (value : Bool)

/-- The options after a change. The new value is not checked. -/
def set (o : Options) : Setting → Options
  | .maxRatio value => { o with maxRatio := value }
  | .maxDistance value => { o with maxDistance := value }
  | .crossCheck value => { o with crossCheck := value }
  | .maxNumMatches value => { o with maxNumMatches := value }
  | .maxError value => { o with maxError := value }
  | .confidence value => { o with confidence := value }
  | .numTrials least largest => { o with minNumTrials := least, maxNumTrials := largest }
  | .minInlierRatio value => { o with minInlierRatio := value }
  | .minNumInliers value => { o with minNumInliers := value }
  | .multipleModels value => { o with multipleModels := value }
  | .guidedMatching value => { o with guidedMatching := value }

/-- The options after several changes, the first one first. -/
def setAll (o : Options) (settings : List Setting) : Options := settings.foldl set o

end Options

end FeatureMatching
