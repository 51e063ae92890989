import FeatureMatching.Keypoint
import FeatureMatching.Descriptor.Quantization

/-!
# The features of an image

The features of an image are its keypoints and its descriptors, two lists that belong together
position by position. They are loaded and replaced one at a time, so their lengths can differ for a
while; whoever needs both checks first.
-/

set_option autoImplicit false

namespace FeatureMatching

/-- One of the two images. -/
inductive Side where
  | first
  | second
deriving DecidableEq, Repr

/-- The features of one image. -/
structure Features where
  keypoints : Array Keypoint
  descriptors : Array Descriptor
deriving DecidableEq

namespace Features

/-- An image without features. -/
def empty : Features := ⟨#[], #[]⟩

/-- Whether every keypoint has a descriptor and every descriptor a keypoint. -/
def Aligned (f : Features) : Prop := f.keypoints.size = f.descriptors.size

instance (f : Features) : Decidable f.Aligned := inferInstanceAs (Decidable (_ = _))

/-- The position of a feature. -/
def location (f : Features) (h : f.Aligned) (i : Fin f.descriptors.size) : Point Float32 :=
  have hi : i.val < f.keypoints.size := h.symm ▸ i.isLt
  f.keypoints[i.val].location

/-- The features with another keypoint position, if there is a keypoint of that number. -/
def move? (f : Features) (i : Nat) (p : Point Float32) : Option Features :=
  if h : i < f.keypoints.size then
    some { f with keypoints := f.keypoints.set i (f.keypoints[i].moveTo p) }
  else none

/-- The features with every descriptor in the other orientation convention. -/
def reverseOrientations (f : Features) : Features :=
  { f with descriptors := f.descriptors.map Descriptor.reverseOrientations }

end Features

end FeatureMatching
