import FeatureMatching.Features
import FeatureMatching.Options
import FeatureMatching.Numeric.ShortestDecimal

/-!
# What can go wrong

A call fails for one of two reasons: an option is out of range, or an image has keypoints and
descriptors in different numbers. A fault is that reason with the values that show it; its wording
is made here and nowhere else.
-/

set_option autoImplicit false

namespace FeatureMatching

open Numeric

namespace Options.Violation

/-- The name of the option at fault. -/
def option : Violation → String
  | .maxRatio _ => "max_ratio"
  | .maxDistance _ => "max_distance"
  | .maxError _ => "max_error"
  | .maxNumMatches => "max_num_matches"
  | .maxNumTrials => "max_num_trials"
  | .minNumTrials _ _ => "min_num_trials"
  | .minInlierRatio _ => "min_inlier_ratio"
  | .confidence _ => "confidence"

/-- The condition that does not hold, and the value that was given. -/
def reason : Violation → String
  | .maxRatio got | .maxDistance got => "must be > 0, got " ++ text32 got
  | .maxError got => "must be > 0, got " ++ text64 got
  | .maxNumMatches | .maxNumTrials => "must be > 0"
  | .minNumTrials limit got =>
    "must be <= max_num_trials (" ++ toString limit ++ "), got " ++ toString got
  | .minInlierRatio got => "must be in [0, 1], got " ++ text64 got
  | .confidence got => "must be in (0, 1], got " ++ text64 got

end Options.Violation

/-- The written name of an image's features. -/
def Side.featuresName : Side → String
  | .first => "features1"
  | .second => "features2"

/-- The reason why a call failed. -/
inductive Fault where
  /-- An option is out of range. -/
  | invalidOption (violation : Options.Violation)
  /-- The keypoints and the descriptors of an image differ in number. -/
  | misaligned (side : Side) (keypoints descriptors : Nat)
deriving DecidableEq

namespace Fault

/-- The fault in words. -/
def message : Fault → String
  | .invalidOption violation =>
    "invalid option `" ++ violation.option ++ "`: " ++ violation.reason
  | .misaligned side keypoints descriptors =>
    side.featuresName ++ ": " ++ toString keypoints ++ " keypoints but " ++
      toString descriptors ++ " descriptors"

end Fault

/-- Fails with the first condition that does not hold. -/
def Options.validate (o : Options) : Except Fault Unit :=
  match o.violation? with
  | some violation => .error (.invalidOption violation)
  | none => .ok ()

theorem Options.validate_eq_ok_iff (o : Options) : o.validate = .ok () ↔ o.Valid := by
  unfold validate Valid
  split <;> simp_all

end FeatureMatching
