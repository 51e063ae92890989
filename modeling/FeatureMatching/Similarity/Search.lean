import FeatureMatching.Similarity.Nearest
import FeatureMatching.Correspondence

/-!
# Searching a matrix for correspondences

The choices of the rows are read off as correspondences, in the order of the rows. With the cross
check the columns choose as well, by the same rule on the transposed matrix, and a correspondence
stays only if its column chose its row: the two features are each other's nearest.
-/

set_option autoImplicit false

namespace FeatureMatching

/-- The outcome of a search. -/
structure Search where
  rows : Nat
  cols : Nat
  /-- Whether the columns had to agree. -/
  crossCheck : Bool
  /-- The number of rows that chose a column. -/
  chosen : Nat
  /-- The correspondences kept, in increasing order of the first feature. -/
  found : List Correspondence
deriving DecidableEq

namespace Choices

/-- The choices as correspondences, row after row. -/
def correspondences (choices : Choices) : List Correspondence :=
  (List.range choices.chosen.size).filterMap fun row => (choices.of row).map (⟨row, ·⟩)

/-- Whether these choices lead back from a correspondence's second feature to its first. -/
def confirms (backward : Choices) (c : Correspondence) : Bool :=
  backward.of c.second == some c.first

theorem mem_correspondences {choices : Choices} {c : Correspondence} :
    c ∈ choices.correspondences ↔ choices.of c.first = some c.second := by
  simp only [correspondences, List.mem_filterMap, List.mem_range, Option.map_eq_some_iff]
  constructor
  · rintro ⟨row, -, col, h, rfl⟩
    exact h
  · intro h
    refine ⟨c.first, ?_, c.second, h, rfl⟩
    false_or_by_contra
    rename_i hsize
    simp [of, Array.getElem?_eq_none (Nat.le_of_not_lt hsize)] at h

end Choices

namespace SimilarityMatrix

variable [ArcCosine]

/-- Searches a matrix for correspondences. -/
def search (m : SimilarityMatrix) (t : Thresholds) (crossCheck : Bool) : Search :=
  let forward := Choices.ofMatrix t m
  let all := forward.correspondences
  let kept :=
    if crossCheck then
      let backward := Choices.ofMatrix t m.transpose
      all.filter backward.confirms
    else all
  ⟨m.rows, m.cols, crossCheck, forward.count, kept⟩

/-- The correspondences that a search finds. -/
def correspondences (m : SimilarityMatrix) (t : Thresholds) (crossCheck : Bool) :
    List Correspondence :=
  (m.search t crossCheck).found

end SimilarityMatrix

end FeatureMatching
