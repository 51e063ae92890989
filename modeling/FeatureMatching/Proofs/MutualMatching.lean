import Mathlib
import FeatureMatching.Similarity.Search
import FeatureMatching.Proofs.RowScan

/-!
# What a search finds

A search answers with a list of pairs, computed by one scan of the matrix and, with the cross check,
one of its transpose. Here the list is described by the matrix alone: a pair is in it when its
column is the row's choice and, with the cross check, its row is the column's choice
(`mem_correspondences_iff`). The rest follows from that and from the order in which the rows are
read: pairs come in increasing order of the first feature, and no second feature is used twice once
the columns had a say, because a column chooses one row.

No hypothesis on the thresholds is needed anywhere in this file, nor on the arc cosine. The tests
are two comparisons, and what is proved holds for whatever they answer, NaN and infinities included.
-/

set_option autoImplicit false

namespace FeatureMatching

namespace SimilarityMatrix

def column (m : SimilarityMatrix) (c : Fin m.cols) : Fin m.rows → Int32 := fun r => m.get r c

theorem get_transpose_eq_column (m : SimilarityMatrix) (c : Fin m.cols) :
    m.transpose.get c = m.column c :=
  funext fun r => get_transpose m r c

theorem slice?_eq_row (m : SimilarityMatrix) (r : Fin m.rows) :
    m.slice? r = some (m.row r).toArray := by
  have hle : (r.val + 1) * m.cols ≤ m.entries.size :=
    m.size_eq ▸ Nat.mul_le_mul_right _ r.isLt
  have hwidth : (r.val + 1) * m.cols - r.val * m.cols = m.cols := by
    rw [Nat.succ_mul, Nat.add_sub_cancel_left]
  unfold slice?
  rw [if_pos hle]
  congr 1
  apply Array.ext
  · rw [Array.size_extract, Nat.min_eq_left hle, hwidth]
    simp [row]
  · intro j _ _
    simp [row, get]

end SimilarityMatrix

/-! ## Membership -/

-- So a list in increasing order is determined by its members.
instance : Std.Irrefl fun c d : Correspondence => c.first < d.first where
  irrefl _ := Nat.lt_irrefl _

instance : Std.Antisymm fun c d : Correspondence => c.first < d.first where
  antisymm _ _ hcd hdc := absurd (hcd.trans hdc) (Nat.lt_irrefl _)

namespace Choices

theorem correspondences_increasing (choices : Choices) :
    choices.correspondences.Pairwise fun c d => c.first < d.first := by
  refine List.Pairwise.filterMap _ ?_ List.pairwise_lt_range
  intro r s hlt c hc d hd
  obtain ⟨_, _, rfl⟩ := Option.map_eq_some_iff.mp hc
  obtain ⟨_, _, rfl⟩ := Option.map_eq_some_iff.mp hd
  exact hlt

end Choices

variable [ArcCosine]

namespace Choices

theorem of_ofMatrix_eq_some_iff {t : Thresholds} {m : SimilarityMatrix} {r c : Nat} :
    (ofMatrix t m).of r = some c ↔
      ∃ (hr : r < m.rows) (hc : c < m.cols), t.Accepts (m.get ⟨r, hr⟩) ⟨c, hc⟩ := by
  by_cases hr : r < m.rows
  · have hof : (ofMatrix t m).of r = t.choose (List.ofFn (m.get ⟨r, hr⟩)) :=
      of_ofMatrix t m ⟨r, hr⟩
    rw [hof, Thresholds.choose_ofFn_eq_some_iff]
    exact ⟨fun h => ⟨hr, h⟩, fun ⟨_, h⟩ => h⟩
  · constructor
    · intro h
      have hsize : (ofMatrix t m).chosen.size ≤ r := by
        rw [size_chosen_ofMatrix]
        exact Nat.le_of_not_lt hr
      simp [of, Array.getElem?_eq_none hsize] at h
    · rintro ⟨h, -⟩
      exact absurd h hr

/-- The columns' choices are the choices of the transposed matrix. -/
theorem of_transpose_eq_some_iff {t : Thresholds} {m : SimilarityMatrix} {r c : Nat} :
    (ofMatrix t m.transpose).of c = some r ↔
      ∃ (hr : r < m.rows) (hc : c < m.cols), t.Accepts (m.column ⟨c, hc⟩) ⟨r, hr⟩ := by
  rw [of_ofMatrix_eq_some_iff]
  constructor
  · rintro ⟨hc, hr, h⟩
    exact ⟨hr, hc, m.get_transpose_eq_column ⟨c, hc⟩ ▸ h⟩
  · rintro ⟨hr, hc, h⟩
    exact ⟨hc, hr, (m.get_transpose_eq_column ⟨c, hc⟩).symm ▸ h⟩

end Choices

namespace SimilarityMatrix

theorem correspondences_unchecked (m : SimilarityMatrix) (t : Thresholds) :
    m.correspondences t false = (Choices.ofMatrix t m).correspondences := rfl

theorem correspondences_checked (m : SimilarityMatrix) (t : Thresholds) :
    m.correspondences t true =
      (Choices.ofMatrix t m).correspondences.filter
        (Choices.ofMatrix t m.transpose).confirms := rfl

theorem correspondences_sublist (m : SimilarityMatrix) (t : Thresholds) (crossCheck : Bool) :
    (m.correspondences t crossCheck).Sublist (m.correspondences t false) := by
  cases crossCheck with
  | false => exact List.Sublist.refl _
  | true => exact List.filter_sublist

theorem correspondences_increasing (m : SimilarityMatrix) (t : Thresholds) (crossCheck : Bool) :
    (m.correspondences t crossCheck).Pairwise fun c d => c.first < d.first :=
  (Choices.correspondences_increasing _).sublist (m.correspondences_sublist t crossCheck)

theorem correspondences_nodup (m : SimilarityMatrix) (t : Thresholds) (crossCheck : Bool) :
    (m.correspondences t crossCheck).Nodup :=
  (m.correspondences_increasing t crossCheck).imp fun hlt heq => hlt.ne (congrArg _ heq)

theorem mem_correspondences_checked {m : SimilarityMatrix} {t : Thresholds} {c : Correspondence} :
    c ∈ m.correspondences t true ↔
      (Choices.ofMatrix t m).of c.first = some c.second ∧
        (Choices.ofMatrix t m.transpose).of c.second = some c.first := by
  rw [correspondences_checked, List.mem_filter, Choices.mem_correspondences, Choices.confirms,
    beq_iff_eq]

/-- **The pairs that a search finds**, for numbers that need not be features at all. -/
theorem mem_correspondences_iff_exists {m : SimilarityMatrix} {t : Thresholds} {crossCheck : Bool}
    {p : Correspondence} :
    p ∈ m.correspondences t crossCheck ↔
      ∃ (hr : p.first < m.rows) (hc : p.second < m.cols),
        t.Accepts (m.get ⟨p.first, hr⟩) ⟨p.second, hc⟩ ∧
          (crossCheck = true → t.Accepts (m.column ⟨p.second, hc⟩) ⟨p.first, hr⟩) := by
  cases crossCheck with
  | false =>
    rw [correspondences_unchecked, Choices.mem_correspondences, Choices.of_ofMatrix_eq_some_iff]
    constructor
    · rintro ⟨hr, hc, h⟩
      exact ⟨hr, hc, h, fun hfalse => absurd hfalse (by decide)⟩
    · rintro ⟨hr, hc, h, -⟩
      exact ⟨hr, hc, h⟩
  | true =>
    rw [mem_correspondences_checked, Choices.of_ofMatrix_eq_some_iff,
      Choices.of_transpose_eq_some_iff]
    constructor
    · rintro ⟨⟨hr, hc, hrow⟩, _, _, hcolumn⟩
      exact ⟨hr, hc, hrow, fun _ => hcolumn⟩
    · rintro ⟨hr, hc, hrow, hcolumn⟩
      exact ⟨⟨hr, hc, hrow⟩, hr, hc, hcolumn rfl⟩

theorem mem_correspondences_iff {m : SimilarityMatrix} {t : Thresholds} {crossCheck : Bool}
    {r : Fin m.rows} {c : Fin m.cols} :
    ⟨r, c⟩ ∈ m.correspondences t crossCheck ↔
      t.Accepts (m.get r) c ∧ (crossCheck = true → t.Accepts (m.column c) r) := by
  rw [mem_correspondences_iff_exists]
  exact ⟨fun ⟨_, _, h⟩ => h, fun h => ⟨r.isLt, c.isLt, h⟩⟩

theorem mem_correspondences_ofFn {n k : Nat} {f : Fin n → Fin k → Int32} {t : Thresholds}
    {crossCheck : Bool} {r : Fin n} {c : Fin k} :
    ⟨r, c⟩ ∈ (ofFn f).correspondences t crossCheck ↔
      t.Accepts (f r) c ∧ (crossCheck = true → t.Accepts (fun i => f i c) r) := by
  have hrow : (ofFn f).get r = f r := funext fun j => get_ofFn f r j
  have hcolumn : (ofFn f).column c = fun i => f i c := funext fun i => get_ofFn f i c
  have h : ⟨r, c⟩ ∈ (ofFn f).correspondences t crossCheck ↔
      t.Accepts ((ofFn f).get r) c ∧ (crossCheck = true → t.Accepts ((ofFn f).column c) r) :=
    mem_correspondences_iff
  rwa [hrow, hcolumn] at h

theorem inside_of_mem_correspondences {m : SimilarityMatrix} {t : Thresholds} {crossCheck : Bool}
    {p : Correspondence} (h : p ∈ m.correspondences t crossCheck) :
    p.first < m.rows ∧ p.second < m.cols := by
  obtain ⟨hr, hc, -⟩ := mem_correspondences_iff_exists.mp h
  exact ⟨hr, hc⟩

/-- **No second feature is used twice.** A column chooses one row, so two pairs with the same second
feature would have the same first one, and the first features increase. -/
theorem second_ne_of_crossCheck (m : SimilarityMatrix) (t : Thresholds) :
    (m.correspondences t true).Pairwise fun p q => p.second ≠ q.second := by
  refine (m.correspondences_increasing t true).imp_of_mem ?_
  rintro ⟨r, c⟩ ⟨s, d⟩ hp hq hlt heq
  obtain rfl : c = d := heq
  obtain ⟨_, _, _, hrow⟩ := mem_correspondences_iff_exists.mp hp
  obtain ⟨_, _, _, hrow'⟩ := mem_correspondences_iff_exists.mp hq
  -- Both rows are what column `c` chooses.
  have hsame := (hrow rfl).leads.unique (hrow' rfl).leads
  exact absurd (Fin.mk.inj hsame) (Nat.ne_of_lt hlt)

/-! ## Every index stays inside its array -/

/-- The places that a search with the cross check reads or writes, each inside its array: the rows
of the matrix and of its transpose, the two cells of the transposition, and the column's choice
that a row's choice is compared with. -/
structure InBounds (m : SimilarityMatrix) (t : Thresholds) : Prop where
  row : ∀ r : Fin m.rows, m.slice? r = some (m.row r).toArray
  column : ∀ c : Fin m.cols, m.transpose.slice? c = some (List.ofFn (m.column c)).toArray
  cells : ∀ (r : Fin m.rows) (c : Fin m.cols),
    r * m.cols + c < m.entries.size ∧ c * m.rows + r < m.transpose.entries.size
  backward : ∀ r c : Nat, (Choices.ofMatrix t m).of r = some c →
    c < (Choices.ofMatrix t m.transpose).chosen.size

theorem inBounds (m : SimilarityMatrix) (t : Thresholds) : m.InBounds t where
  row := m.slice?_eq_row
  column c := by
    rw [← m.get_transpose_eq_column c]
    exact m.transpose.slice?_eq_row c
  cells r c := by
    rw [m.size_eq, m.transpose.size_eq]
    exact ⟨index_lt r c, index_lt c r⟩
  backward r c h := by
    obtain ⟨_, hc, -⟩ := Choices.of_ofMatrix_eq_some_iff.mp h
    rw [Choices.size_chosen_ofMatrix]
    exact hc

/-- **Mutual matching, exactly.** With the cross check a search finds the pairs that choose each
other, without it the pairs whose row chooses their column; `Thresholds.Accepts` says what choosing
is. Both lists increase in the first feature, the first is a part of the second and uses no second
feature twice, and no index of the computation leaves its array. -/
theorem correspondences_mutually_nearest (m : SimilarityMatrix) (t : Thresholds) :
    m.InBounds t ∧
      (∀ (r : Fin m.rows) (c : Fin m.cols), ⟨r, c⟩ ∈ m.correspondences t true ↔
        t.Accepts (m.get r) c ∧ t.Accepts (m.column c) r) ∧
      (∀ (r : Fin m.rows) (c : Fin m.cols), ⟨r, c⟩ ∈ m.correspondences t false ↔
        t.Accepts (m.get r) c) ∧
      (∀ crossCheck, ∀ p ∈ m.correspondences t crossCheck, p.first < m.rows ∧ p.second < m.cols) ∧
      (∀ crossCheck, (m.correspondences t crossCheck).Pairwise fun p q => p.first < q.first) ∧
      (m.correspondences t true).Pairwise (fun p q => p.second ≠ q.second) ∧
      (m.correspondences t true).Sublist (m.correspondences t false) := by
  refine ⟨m.inBounds t, fun r c => ?_, fun r c => ?_,
    fun crossCheck p => inside_of_mem_correspondences, m.correspondences_increasing t,
    m.second_ne_of_crossCheck t, m.correspondences_sublist t true⟩
  · rw [mem_correspondences_iff]
    exact and_congr_right fun _ => ⟨fun h => h rfl, fun h _ => h⟩
  · rw [mem_correspondences_iff]
    exact ⟨fun h => h.1, fun h => ⟨h, fun hfalse => absurd hfalse (by decide)⟩⟩

end SimilarityMatrix

end FeatureMatching
