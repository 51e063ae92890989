import FeatureMatching.Json.Value
import FeatureMatching.Keypoint
import FeatureMatching.Geometry.TwoView
import FeatureMatching.Descriptor.Quantization
import FeatureMatching.Options

/-!
# The stored forms of the library's values

Each kind of value that is stored has a form: an encoder that writes it as a JSON tree and a decoder
that reads it back. A record is written as an object with its fields in order; it is read from such
an object in any order, or from an array of the fields. Every field is required, the options' apart,
where a missing one means the standard setting.

A matrix is an array of nine numbers, one column after another.
-/

set_option autoImplicit false

namespace FeatureMatching

namespace Json

open Value

/-! ## Names -/

def encodeConfiguration (c : Configuration) : Value := .string c.name

def decodeConfiguration (v : Value) : Option Configuration := v.toName?.bind Configuration.ofName?

def encodeNormalization (n : Normalization) : Value := .string n.name

def decodeNormalization (v : Value) : Option Normalization := v.toName?.bind Normalization.ofName?

/-! ## Correspondences -/

def correspondenceFields : List String := ["idx1", "idx2"]

def encodeCorrespondence (c : Correspondence) : Value :=
  .object [("idx1", ofNat c.first), ("idx2", ofNat c.second)]

def decodeCorrespondence (v : Value) : Option Correspondence := do
  let fields ← fields? correspondenceFields v
  let first ← fields.required "idx1" toNat?
  let second ← fields.required "idx2" toNat?
  return ⟨first, second⟩

/-! ## Keypoints -/

def keypointFields : List String := ["x", "y", "a11", "a12", "a21", "a22"]

def encodeKeypoint (k : Keypoint) : Value :=
  .object
    [("x", ofFloat32 k.x), ("y", ofFloat32 k.y), ("a11", ofFloat32 k.a11),
     ("a12", ofFloat32 k.a12), ("a21", ofFloat32 k.a21), ("a22", ofFloat32 k.a22)]

def decodeKeypoint (v : Value) : Option Keypoint := do
  let fields ← fields? keypointFields v
  let x ← fields.required "x" toFloat32?
  let y ← fields.required "y" toFloat32?
  let a11 ← fields.required "a11" toFloat32?
  let a12 ← fields.required "a12" toFloat32?
  let a21 ← fields.required "a21" toFloat32?
  let a22 ← fields.required "a22" toFloat32?
  return ⟨x, y, a11, a12, a21, a22⟩

/-! ## Geometries -/

def encodeMatrix (m : Matrix3 Float) : Value := .array (m.columns.map ofFloat)

def decodeMatrix (v : Value) : Option (Matrix3 Float) :=
  (v.toList? toFloat?).bind Matrix3.ofColumns?

def geometryFields : List String := ["config", "f", "h", "inlier_matches"]

def encodeGeometry (g : TwoView) : Value :=
  .object
    [("config", encodeConfiguration g.configuration), ("f", encodeMatrix g.fundamental),
     ("h", encodeMatrix g.homography),
     ("inlier_matches", .array (g.inliers.map encodeCorrespondence))]

def decodeGeometry (v : Value) : Option TwoView := do
  let fields ← fields? geometryFields v
  let configuration ← fields.required "config" decodeConfiguration
  let fundamental ← fields.required "f" decodeMatrix
  let homography ← fields.required "h" decodeMatrix
  let inliers ← fields.required "inlier_matches" (toList? decodeCorrespondence)
  return ⟨configuration, fundamental, homography, inliers⟩

/-! ## Options -/

def optionsFields : List String :=
  ["max_ratio", "max_distance", "cross_check", "max_num_matches", "max_error", "confidence",
   "min_num_trials", "max_num_trials", "min_inlier_ratio", "min_num_inliers", "multiple_models",
   "guided_matching"]

def encodeOptions (o : Options) : Value :=
  .object
    [("max_ratio", ofFloat32 o.maxRatio), ("max_distance", ofFloat32 o.maxDistance),
     ("cross_check", .bool o.crossCheck), ("max_num_matches", ofNat o.maxNumMatches),
     ("max_error", ofFloat o.maxError), ("confidence", ofFloat o.confidence),
     ("min_num_trials", ofNat o.minNumTrials), ("max_num_trials", ofNat o.maxNumTrials),
     ("min_inlier_ratio", ofFloat o.minInlierRatio), ("min_num_inliers", ofNat o.minNumInliers),
     ("multiple_models", .bool o.multipleModels), ("guided_matching", .bool o.guidedMatching)]

def decodeOptions (v : Value) : Option Options := do
  let fields ← fields? optionsFields v
  let standard := Options.standard
  let maxRatio ← fields.optional "max_ratio" toFloat32? standard.maxRatio
  let maxDistance ← fields.optional "max_distance" toFloat32? standard.maxDistance
  let crossCheck ← fields.optional "cross_check" toBool? standard.crossCheck
  let maxNumMatches ← fields.optional "max_num_matches" toNat? standard.maxNumMatches
  let maxError ← fields.optional "max_error" toFloat? standard.maxError
  let confidence ← fields.optional "confidence" toFloat? standard.confidence
  let minNumTrials ← fields.optional "min_num_trials" toNat? standard.minNumTrials
  let maxNumTrials ← fields.optional "max_num_trials" toNat? standard.maxNumTrials
  let minInlierRatio ← fields.optional "min_inlier_ratio" toFloat? standard.minInlierRatio
  let minNumInliers ← fields.optional "min_num_inliers" toNat? standard.minNumInliers
  let multipleModels ← fields.optional "multiple_models" toBool? standard.multipleModels
  let guidedMatching ← fields.optional "guided_matching" toBool? standard.guidedMatching
  return ⟨maxRatio, maxDistance, crossCheck, maxNumMatches, maxError, confidence, minNumTrials,
    maxNumTrials, minInlierRatio, minNumInliers, multipleModels, guidedMatching⟩

end Json

end FeatureMatching
