import Mathlib
import FeatureMatching.Proofs.FewerCompetitors

/-!
# Looser thresholds only add matches

With the cross check a looser threshold acts twice: a row may choose where it did not before, and so
may a column. Neither can be turned to another partner by it. Whom a row or a column would choose is
settled by the entries alone (`Thresholds.Accepts.leads`); the thresholds decide only whether it
does. So every choice that was made is still made (`Thresholds.Accepts.of_looser`), and since both
lists are in the order of the rows, the shorter one is a sublist of the longer one.

The ratio needs care at one point. An infinite ratio times an angle of zero is a NaN; the test
rejects by a comparison, which a NaN fails, so that ratio is the loosest there is.
-/

set_option autoImplicit false

namespace FeatureMatching

open Numeric

/-! ## Choices -/

/-- No limit of the second thresholds is below the one of the first. -/
structure Thresholds.LooserThan (t' t : Thresholds) : Prop where
  maxRatio : t.maxRatio ≤ t'.maxRatio
  maxDistance : t.maxDistance ≤ t'.maxDistance

section Choice

variable [ArcCosine] {t t' : Thresholds}

/-- Of two lists of pairs found in a matrix, one that has all pairs of the other has them in the
same order. -/
theorem SimilarityMatrix.correspondences_sublist_of_subset (m : SimilarityMatrix)
    {crossCheck crossCheck' : Bool}
    (h : ∀ p ∈ m.correspondences t crossCheck, p ∈ m.correspondences t' crossCheck') :
    (m.correspondences t crossCheck).Sublist (m.correspondences t' crossCheck') :=
  List.sublist_of_subperm_of_pairwise
    (List.subperm_of_subset (m.correspondences_nodup t crossCheck) h)
    (m.correspondences_increasing t crossCheck) (m.correspondences_increasing t' crossCheck')

variable [ArcCosine.Lawful]

/-- **A choice stays a choice under looser thresholds.** -/
theorem Thresholds.Accepts.of_looser (hpos : 0 < t.maxRatio) (hlooser : t'.LooserThan t) {n : Nat}
    {row : Fin n → Int32} {c : Fin n} (h : t.Accepts row c) : t'.Accepts row c where
  positive := h.positive
  leads := h.leads
  near := fun hfar => h.near (lt_of_le_of_lt32 hlooser.maxDistance hfar)
  clear := fun hambiguous =>
    h.clear (ratio_mul_angle_le_of_ratio_le hpos hlooser.maxRatio hambiguous)

namespace SimilarityMatrix

theorem mem_correspondences_of_looser (hpos : 0 < t.maxRatio) (hlooser : t'.LooserThan t)
    {m : SimilarityMatrix} {crossCheck : Bool} {p : Correspondence}
    (h : p ∈ m.correspondences t crossCheck) : p ∈ m.correspondences t' crossCheck := by
  rw [mem_correspondences_iff_exists] at h ⊢
  obtain ⟨hr, hc, hrow, hcolumn⟩ := h
  exact ⟨hr, hc, hrow.of_looser hpos hlooser, fun hcheck => (hcolumn hcheck).of_looser hpos hlooser⟩

/-- **Looser thresholds keep every pair that was found**, and the order of the pairs. -/
theorem correspondences_sublist_of_looser (hpos : 0 < t.maxRatio) (hlooser : t'.LooserThan t)
    (m : SimilarityMatrix) (crossCheck : Bool) :
    (m.correspondences t crossCheck).Sublist (m.correspondences t' crossCheck) :=
  m.correspondences_sublist_of_subset fun _ => mem_correspondences_of_looser hpos hlooser

end SimilarityMatrix

end Choice

/-! ## Calls -/

/-- The second options differ from the first in the two thresholds only, and neither of these is
smaller. -/
structure Options.LooserThan (o' o : Options) : Prop where
  same : o' = { o with maxRatio := o'.maxRatio, maxDistance := o'.maxDistance }
  maxRatio : ¬o'.maxRatio < o.maxRatio
  maxDistance : ¬o'.maxDistance < o.maxDistance

section Calls

variable {o o' : Options}

theorem Options.LooserThan.crossCheck (hlooser : o'.LooserThan o) :
    o'.crossCheck = o.crossCheck := by
  rw [hlooser.same]

theorem Options.LooserThan.maxError (hlooser : o'.LooserThan o) : o'.maxError = o.maxError := by
  rw [hlooser.same]

/-- Valid thresholds are no NaN, so one that is not smaller is at least as large. -/
theorem Options.LooserThan.thresholds (h : o.Valid) (h' : o'.Valid) (hlooser : o'.LooserThan o) :
    o'.thresholds.LooserThan o.thresholds := by
  have hrange := Options.valid_iff_inRange.mp h
  have hrange' := Options.valid_iff_inRange.mp h'
  obtain ⟨⟨-, hratio⟩, -⟩ := lt_iff_position32.mp hrange.maxRatio
  obtain ⟨⟨-, hratio'⟩, -⟩ := lt_iff_position32.mp hrange'.maxRatio
  obtain ⟨⟨-, hdistance⟩, -⟩ := lt_iff_position32.mp hrange.maxDistance
  obtain ⟨⟨-, hdistance'⟩, -⟩ := lt_iff_position32.mp hrange'.maxDistance
  exact ⟨le_of_not_lt32 hratio' hratio hlooser.maxRatio,
    le_of_not_lt32 hdistance' hdistance hlooser.maxDistance⟩

theorem Options.LooserThan.correspondences_sublist [ArcCosine] [ArcCosine.Lawful] (h : o.Valid)
    (h' : o'.Valid) (hlooser : o'.LooserThan o) (m : SimilarityMatrix) :
    (m.correspondences o.thresholds o.crossCheck).Sublist
      (m.correspondences o'.thresholds o'.crossCheck) := by
  have hpos : 0 < o.thresholds.maxRatio := (Options.valid_iff_inRange.mp h).maxRatio
  rw [hlooser.crossCheck]
  exact m.correspondences_sublist_of_looser hpos (hlooser.thresholds h h') o.crossCheck

end Calls

end FeatureMatching
