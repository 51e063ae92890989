/-!
# Correspondences

A correspondence pairs a feature of the first image with one of the second, by their positions in
the two lists of features. Correspondences are ordered by the first position, then by the second.
-/

set_option autoImplicit false

namespace FeatureMatching

/-- A pair of features that are taken to show the same point. -/
structure Correspondence where
  first : Nat
  second : Nat
deriving DecidableEq, Repr

namespace Correspondence

/-- The same pair seen from the other image. -/
def swapped (c : Correspondence) : Correspondence := ⟨c.second, c.first⟩

/-- The order by the first position, then by the second. -/
def order (a b : Correspondence) : Ordering :=
  (compare a.first b.first).then (compare a.second b.second)

/-- Correspondences in increasing order. -/
def sorted (cs : List Correspondence) : List Correspondence :=
  cs.mergeSort fun a b => (order a b).isLE

@[simp] theorem swapped_swapped (c : Correspondence) : c.swapped.swapped = c := rfl

end Correspondence

end FeatureMatching
