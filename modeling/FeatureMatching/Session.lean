import FeatureMatching.Matching

/-!
# Matching sessions

A session holds two images, a geometry and options, and works through commands: change a part of
it, or match. Only one command touches the inliers by matching, `refineInliers`; the others that
match only answer. A session is a value and a step is a function, so what a run of any length leaves
behind is a statement about `run`.
-/

set_option autoImplicit false

namespace FeatureMatching

variable [ArcCosine]

/-- Two images, what is known about their relation, and how to match them. -/
structure Session where
  first : Features
  second : Features
  geometry : TwoView
  options : Options

/-- One thing to do in a session. -/
inductive Command where
  | matchDescriptors
  | matchGuided
  /-- Match under the geometry and keep the outcome as its inliers. -/
  | refineInliers
  | validate
  | showOptions
  | set (setting : Options.Setting)
  | setConfiguration (configuration : Configuration)
  | setFundamental (matrix : Matrix3 Float)
  | setHomography (matrix : Matrix3 Float)
  | showMatrices
  | setInliers (inliers : List Correspondence)
  | addInlier (inlier : Correspondence)
  | setKeypoints (side : Side) (keypoints : Array Keypoint)
  | setDescriptors (side : Side) (descriptors : Array Descriptor)
  | move (side : Side) (index : Nat) (position : Point Float32)
  /-- Replace the descriptors of an image by quantized ones. -/
  | quantize (side : Side) (normalization : Normalization)
      (raw : Array (Vector Float32 binCount))
  /-- Change the orientation convention of an image's descriptors. -/
  | reverseOrientations (side : Side)
  | exchange

/-- What a command answers. -/
inductive Answer where
  | done
  | failed (fault : Fault)
  /-- There is no keypoint of the number that the command names. -/
  | noSuchKeypoint
  | correspondences (found : List Correspondence)
  | options (options : Options)
  /-- The fundamental matrix and the homography. -/
  | matrices (fundamental homography : Matrix3 Float)
  /-- An image's new descriptors. -/
  | descriptors (descriptors : Array Descriptor)

namespace Answer

/-- The answer of a command that only succeeds or fails. -/
def ofUnit : Except Fault Unit → Answer
  | .ok () => .done
  | .error fault => .failed fault

/-- The answer of a command that finds correspondences. -/
def ofCorrespondences : Except Fault (List Correspondence) → Answer
  | .ok found => .correspondences found
  | .error fault => .failed fault

end Answer

namespace Session

def features (s : Session) : Side → Features
  | .first => s.first
  | .second => s.second

/-- The session with other features for an image. -/
def withFeatures (s : Session) (side : Side) (f : Features) : Session :=
  match side with
  | .first => { s with first := f }
  | .second => { s with second := f }

/-- The session with other descriptors for an image. -/
def withDescriptors (s : Session) (side : Side) (descriptors : Array Descriptor) : Session :=
  s.withFeatures side { s.features side with descriptors := descriptors }

def guided (s : Session) : Except Fault (Option Search) :=
  guidedSearch s.first s.second s.geometry s.options

def after (s : Session) : Command → Session
  | .matchDescriptors | .matchGuided | .validate | .showOptions | .showMatrices => s
  | .refineInliers =>
    { s with geometry := (FeatureMatching.refineInliers s.first s.second s.geometry s.options).2 }
  | .set setting => { s with options := s.options.set setting }
  | .setConfiguration c => { s with geometry := { s.geometry with configuration := c } }
  | .setFundamental m => { s with geometry := { s.geometry with fundamental := m } }
  | .setHomography m => { s with geometry := { s.geometry with homography := m } }
  | .setInliers inliers => { s with geometry := { s.geometry with inliers := inliers } }
  | .addInlier c =>
    { s with geometry := { s.geometry with inliers := s.geometry.inliers ++ [c] } }
  | .setKeypoints side keypoints =>
    s.withFeatures side { s.features side with keypoints := keypoints }
  | .setDescriptors side descriptors => s.withDescriptors side descriptors
  | .move side index position =>
    match (s.features side).move? index position with
    | some f => s.withFeatures side f
    | none => s
  | .quantize side normalization raw =>
    s.withDescriptors side (raw.map (Descriptor.quantize normalization))
  | .reverseOrientations side => s.withFeatures side (s.features side).reverseOrientations
  | .exchange =>
    { s with
      first := s.second
      second := s.first
      geometry :=
        { s.geometry with inliers := s.geometry.inliers.map Correspondence.swapped } }

def answer (s : Session) : Command → Answer
  | .matchDescriptors =>
    .ofCorrespondences
      (FeatureMatching.matchDescriptors s.first.descriptors s.second.descriptors s.options)
  | .matchGuided =>
    .ofCorrespondences (FeatureMatching.matchGuided s.first s.second s.geometry s.options)
  | .refineInliers =>
    .ofUnit (FeatureMatching.refineInliers s.first s.second s.geometry s.options).1
  | .validate => .ofUnit s.options.validate
  | .showOptions => .options s.options
  | .showMatrices => .matrices s.geometry.fundamental s.geometry.homography
  | .move side index position =>
    match (s.features side).move? index position with
    | some _ => .done
    | none => .noSuchKeypoint
  | .quantize _ normalization raw => .descriptors (raw.map (Descriptor.quantize normalization))
  | .reverseOrientations side =>
    .descriptors (s.features side).reverseOrientations.descriptors
  | _ => .done

def events (s : Session) : Command → List Event
  | .matchDescriptors =>
    plainEvents (plainSearch s.first.descriptors s.second.descriptors s.options)
  | .matchGuided | .refineInliers => guidedEvents s.geometry s.guided
  | _ => []

/-- The session after a list of commands. -/
def run (s : Session) (commands : List Command) : Session := commands.foldl after s

end Session

end FeatureMatching
