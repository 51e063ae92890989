import FeatureMatching.Similarity.Matrix
import FeatureMatching.Similarity.Angle

/-!
# Nearest neighbours in one direction

Every row of a similarity matrix looks for its most similar column. One pass over the row keeps two
**leaders**: the column with the highest similarity so far, and the second highest similarity. Both
start at zero, so a row without a positive entry chooses nothing, and an entry that equals the best
so far does not replace it but becomes the second: of several best columns the leftmost wins.

The choice is then tested twice, as an angle. It must not be too far, and it must be clearly nearer
than the runner-up: the ratio test. Both tests are written as the comparisons that reject, so a NaN
threshold rejects nothing.
-/

set_option autoImplicit false

namespace FeatureMatching

/-- The limits that a choice has to respect. -/
structure Thresholds where
  /-- The choice's angle has to be below this part of the runner-up's angle. -/
  maxRatio : Float32
  /-- The largest angle of a choice, in radians. -/
  maxDistance : Float32

/-- The two highest similarities of the columns seen so far. -/
structure Leaders where
  /-- The column of the highest similarity, if that is positive. -/
  column : Option Nat
  /-- The highest similarity, or 0. -/
  best : Int32
  /-- The second highest similarity, or 0. -/
  second : Int32
deriving DecidableEq, Repr

namespace Leaders

/-- The leaders before any column was seen. -/
def none : Leaders := ⟨.none, 0, 0⟩

/-- The leaders after one more column. -/
def visit (leaders : Leaders) (column : Nat) (similarity : Int32) : Leaders :=
  if leaders.best < similarity then ⟨some column, similarity, leaders.best⟩
  else if leaders.second < similarity then { leaders with second := similarity }
  else leaders

/-- The leaders after more columns, the first of which has the given number. -/
def visitAll (leaders : Leaders) (column : Nat) : List Int32 → Leaders
  | [] => leaders
  | similarity :: rest => (leaders.visit column similarity).visitAll (column + 1) rest

/-- The leaders of a whole row. -/
def ofRow (row : List Int32) : Leaders := none.visitAll 0 row

end Leaders

variable [ArcCosine]

namespace Thresholds

/-- Whether a choice is too far. -/
def tooFar (t : Thresholds) (best : Int32) : Bool := decide (t.maxDistance < angle best)

/-- Whether a choice is not clearly nearer than the runner-up. -/
def ambiguous (t : Thresholds) (best second : Int32) : Bool :=
  decide (t.maxRatio * angle second ≤ angle best)

/-- The column that a row chooses, if it chooses one. -/
def choose (t : Thresholds) (row : List Int32) : Option Nat :=
  let leaders := Leaders.ofRow row
  if t.tooFar leaders.best || t.ambiguous leaders.best leaders.second then none
  else leaders.column

end Thresholds

/-- What the rows of a matrix choose. -/
structure Choices where
  /-- For each row the column that it chooses. -/
  chosen : Array (Option Nat)

namespace Choices

/-- The choices of the rows of a matrix, one for each row. There is room for any number of them,
also where the rows have no entries and an allocation for each row would fail. -/
def ofMatrix (t : Thresholds) (m : SimilarityMatrix) : Choices :=
  ⟨.ofFn fun r => t.choose (m.row r)⟩

/-- The column that a row chooses. -/
def of (choices : Choices) (row : Nat) : Option Nat := choices.chosen[row]?.join

/-- The number of rows that choose a column. -/
def count (choices : Choices) : Nat := choices.chosen.countP Option.isSome

@[simp] theorem size_chosen_ofMatrix (t : Thresholds) (m : SimilarityMatrix) :
    (ofMatrix t m).chosen.size = m.rows := by
  simp [ofMatrix]

theorem of_ofMatrix (t : Thresholds) (m : SimilarityMatrix) (r : Fin m.rows) :
    (ofMatrix t m).of r = t.choose (m.row r) := by
  simp [of, ofMatrix]

end Choices

end FeatureMatching
