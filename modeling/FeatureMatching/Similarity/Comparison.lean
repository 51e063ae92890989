import FeatureMatching.Similarity.Matrix
import FeatureMatching.Fault

/-!
# Comparing two images

The similarity matrix of two images holds the dot product of every two descriptors. The **masked**
matrix has 0 instead wherever a predicate on the two positions rejects the pair. Zero is also what
orthogonal descriptors have, and a search never matches it, so masking a pair excludes it without
changing the shape of the matrix.
-/

set_option autoImplicit false

namespace FeatureMatching

namespace SimilarityMatrix

/-- The dot product of every two descriptors. -/
def ofDescriptors (a b : Array Descriptor) : SimilarityMatrix :=
  ofFn fun (i : Fin a.size) (j : Fin b.size) => a[i].dot b[j]

/-- The dot product of every two descriptors whose positions the predicate does not reject. -/
def masked (rejects : Point Float32 → Point Float32 → Bool) (a b : Features) (ha : a.Aligned)
    (hb : b.Aligned) : SimilarityMatrix :=
  ofFn fun (i : Fin a.descriptors.size) (j : Fin b.descriptors.size) =>
    if rejects (a.location ha i) (b.location hb j) then 0
    else a.descriptors[i].dot b.descriptors[j]

/-- The masked matrix of two images; fails if one of them is misaligned, the first one first. -/
def ofFeatures (rejects : Point Float32 → Point Float32 → Bool) (a b : Features) :
    Except Fault SimilarityMatrix :=
  if ha : a.Aligned then
    if hb : b.Aligned then .ok (masked rejects a b ha hb)
    else .error (.misaligned .second b.keypoints.size b.descriptors.size)
  else .error (.misaligned .first a.keypoints.size a.descriptors.size)

end SimilarityMatrix

end FeatureMatching
