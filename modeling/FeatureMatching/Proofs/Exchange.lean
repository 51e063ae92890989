import Mathlib
import FeatureMatching.Proofs.MutualMatching
import FeatureMatching.Proofs.Outcomes

/-!
# Exchanging the two images

With the cross check neither image comes first: a pair stays when each of its features chooses the
other. So exchanging the images exchanges the two features of every pair and does nothing else. On
the way from the images to the list there are three steps, and each has its lemma here.

* The matrix of the exchanged images is the transposed matrix, because a dot product does not care
  about the order of its factors (`SimilarityMatrix.ofDescriptors_exchange`, `masked_exchange`).
* The pairs found in the transposed matrix are the swapped ones (`mem_correspondences_transpose`).
  No argument about ties is needed: a search runs in both directions, and transposing the matrix
  makes each of them the other.
* A list that increases in the first feature is what sorting any rearrangement of it gives
  (`Correspondence.sorted_eq_of_perm`).
-/

set_option autoImplicit false

namespace FeatureMatching

/-! ## Sorting -/

namespace Correspondence

theorem isLE_order_iff {c d : Correspondence} :
    (order c d).isLE = true ↔ c.first < d.first ∨ c.first = d.first ∧ c.second ≤ d.second := by
  rw [order, Ordering.isLE_then_iff_or, Nat.compare_eq_lt, Nat.compare_eq_eq, Nat.isLE_compare]

theorem order_trans {c d e : Correspondence} (hcd : (order c d).isLE = true)
    (hde : (order d e).isLE = true) : (order c e).isLE = true := by
  rw [isLE_order_iff] at hcd hde ⊢
  omega

theorem order_total (c d : Correspondence) : ((order c d).isLE || (order d c).isLE) = true := by
  rw [Bool.or_eq_true, isLE_order_iff, isLE_order_iff]
  omega

theorem order_antisymm {c d : Correspondence} (hcd : (order c d).isLE = true)
    (hdc : (order d c).isLE = true) : c = d := by
  rw [isLE_order_iff] at hcd hdc
  obtain ⟨r, s⟩ := c
  obtain ⟨r', s'⟩ := d
  simp only [Correspondence.mk.injEq] at hcd hdc ⊢
  omega

theorem swapped_injective : Function.Injective swapped := fun c d h => by
  rw [← swapped_swapped c, h, swapped_swapped]

/-- **Sorting restores a list that increases in the first feature** from any rearrangement. -/
theorem sorted_eq_of_perm {cs ds : List Correspondence} (hperm : cs.Perm ds)
    (hincreasing : ds.Pairwise fun c d => c.first < d.first) : sorted cs = ds := by
  have hsorted : (sorted cs).Pairwise fun c d => (order c d).isLE = true := by
    unfold sorted
    refine List.pairwise_mergeSort ?_ order_total cs
    exact fun _ _ _ => order_trans
  have hordered : ds.Pairwise fun c d => (order c d).isLE = true :=
    hincreasing.imp fun hlt => isLE_order_iff.mpr (Or.inl hlt)
  exact List.Perm.eq_of_pairwise (fun _ _ _ _ => order_antisymm) hsorted hordered
    ((List.mergeSort_perm cs _).trans hperm)

end Correspondence

/-! ## The matrix of the exchanged images -/

theorem Descriptor.dot_comm (a b : Descriptor) : a.dot b = b.dot a := by
  unfold dot
  rw [List.zipWith_comm]
  simp only [Int32.mul_comm]

namespace SimilarityMatrix

theorem transpose_ofFn {n k : Nat} (f : Fin n → Fin k → Int32) :
    (ofFn f).transpose = ofFn fun c r => f r c := by
  unfold transpose
  congr 1
  funext c r
  exact get_ofFn f r c

theorem ofDescriptors_exchange (a b : Array Descriptor) :
    ofDescriptors b a = (ofDescriptors a b).transpose := by
  unfold ofDescriptors
  rw [transpose_ofFn]
  congr 1
  funext c r
  exact Descriptor.dot_comm _ _

theorem masked_exchange (rejects : Point Float32 → Point Float32 → Bool) {a b : Features}
    (ha : a.Aligned) (hb : b.Aligned) :
    masked (fun q p => rejects p q) b a hb ha = (masked rejects a b ha hb).transpose := by
  unfold masked
  rw [transpose_ofFn]
  congr 1
  funext c r
  rw [Descriptor.dot_comm]

theorem ofFn_get (m : SimilarityMatrix) : ofFn m.get = m := by
  obtain ⟨rows, cols, entries, size_eq⟩ := m
  simp only [ofFn, SimilarityMatrix.mk.injEq, true_and]
  apply Array.ext
  · rw [Array.size_ofFn, size_eq]
  · intro k _ _
    simp only [Array.getElem_ofFn, get, rowOf, colOf, Nat.div_add_mod']

/-- **Exchanging the images twice changes nothing**, also when one of them has no features. -/
theorem transpose_transpose (m : SimilarityMatrix) : m.transpose.transpose = m :=
  (transpose_ofFn _).trans m.ofFn_get

/-! ## The pairs found in it -/

section Search

variable [ArcCosine] {m : SimilarityMatrix} {t : Thresholds}

/-- **A pair is found in the transposed matrix when its swapped pair is found in the matrix.** The
two conditions trade places: what was the row's choice is now the column's. -/
theorem mem_correspondences_transpose {c : Correspondence} :
    c ∈ m.transpose.correspondences t true ↔ c.swapped ∈ m.correspondences t true := by
  rw [mem_correspondences_checked, mem_correspondences_checked, transpose_transpose]
  exact and_comm

theorem correspondences_transpose_perm (m : SimilarityMatrix) (t : Thresholds) :
    ((m.transpose.correspondences t true).map Correspondence.swapped).Perm
      (m.correspondences t true) := by
  -- Both lists are free of repetitions, so it is enough that they have the same elements.
  rw [List.perm_ext_iff_of_nodup
    ((m.transpose.correspondences_nodup t true).map Correspondence.swapped_injective)
    (m.correspondences_nodup t true)]
  intro c
  rw [List.mem_map]
  constructor
  · rintro ⟨d, hd, rfl⟩
    exact mem_correspondences_transpose.mp hd
  · intro hc
    exact ⟨c.swapped, mem_correspondences_transpose.mpr hc, rfl⟩

/-- **Searching the transposed matrix** finds the same pairs, swapped, in another order. -/
theorem sorted_swapped_correspondences (m : SimilarityMatrix) (t : Thresholds) :
    Correspondence.sorted ((m.transpose.correspondences t true).map Correspondence.swapped) =
      m.correspondences t true :=
  Correspondence.sorted_eq_of_perm (m.correspondences_transpose_perm t)
    (m.correspondences_increasing t true)

end Search

end SimilarityMatrix

/-! ## Matching the exchanged images -/

/-- **Cross-checked matching is symmetric.** Exchanging two lists of descriptors gives the same
fault, or the same pairs swapped and put in order. Under a test of positions, exchanging two images
and the arguments of the test transposes the matrix, and a search of the transposed matrix finds the
same pairs swapped, for every pair of thresholds. -/
theorem crossChecked_symmetric [ArcCosine] :
    (∀ (a b : Array Descriptor) (options : Options), options.crossCheck = true →
      (∃ fault, matchDescriptors a b options = .error fault ∧
        matchDescriptors b a options = .error fault) ∨
      ∃ found back, matchDescriptors a b options = .ok found ∧
        matchDescriptors b a options = .ok back ∧
        Correspondence.sorted (back.map Correspondence.swapped) = found) ∧
    (∀ (rejects : Point Float32 → Point Float32 → Bool) (a b : Features),
      a.Aligned → b.Aligned →
      ∃ m, SimilarityMatrix.ofFeatures rejects a b = .ok m ∧
        SimilarityMatrix.ofFeatures (fun q p => rejects p q) b a = .ok m.transpose ∧
        ∀ t : Thresholds,
          Correspondence.sorted ((m.transpose.correspondences t true).map Correspondence.swapped) =
            m.correspondences t true) := by
  constructor
  · intro a b options hcheck
    cases hviolation : options.violation? with
    | some violation =>
      exact Or.inl ⟨_, matchDescriptors_of_violation hviolation a b,
        matchDescriptors_of_violation hviolation b a⟩
    | none =>
      have hvalid : options.Valid := hviolation
      refine Or.inr ⟨_, _, matchDescriptors_of_valid hvalid a b,
        matchDescriptors_of_valid hvalid b a, ?_⟩
      rw [hcheck, SimilarityMatrix.ofDescriptors_exchange]
      exact SimilarityMatrix.sorted_swapped_correspondences _ _
  · intro rejects a b ha hb
    refine ⟨_, SimilarityMatrix.ofFeatures_of_aligned rejects ha hb, ?_,
      SimilarityMatrix.sorted_swapped_correspondences _⟩
    rw [← SimilarityMatrix.masked_exchange]
    exact SimilarityMatrix.ofFeatures_of_aligned _ hb ha

/-- A descriptor with the first four bins of one cell filled. -/
def Descriptor.ofCell (cell : Nat) : Descriptor :=
  ⟨.ofFn fun i => if 8 * cell ≤ i.val ∧ i.val < 8 * cell + 4 then 255 else 0⟩

/-- Three features in a row, each described by a cell of its own. -/
def Features.row : Features where
  keypoints := #[.upright 0 0, .upright 1 0, .upright 2 0]
  descriptors := #[.ofCell 0, .ofCell 1, .ofCell 2]

theorem Features.aligned_row : Features.row.Aligned := rfl

/-- The row with every descriptor moved up by one place. -/
def Features.turnedRow : Features where
  keypoints := Features.row.keypoints
  descriptors := #[.ofCell 2, .ofCell 0, .ofCell 1]

theorem Features.aligned_turnedRow : Features.turnedRow.Aligned := rfl

/-- The row is matched to the turned row in both directions. A test that lets a feature match only
to its left leaves one of the three pairs. -/
theorem crossChecked_symmetric_turned_row :
    Options.standard.crossCheck = true ∧ Features.row.Aligned ∧ Features.turnedRow.Aligned ∧
    (∃ found back,
      matchDescriptors Features.row.descriptors Features.turnedRow.descriptors Options.standard =
        .ok found ∧
      matchDescriptors Features.turnedRow.descriptors Features.row.descriptors Options.standard =
        .ok back ∧
      back = [⟨0, 2⟩, ⟨1, 0⟩, ⟨2, 1⟩] ∧ found = [⟨0, 1⟩, ⟨1, 2⟩, ⟨2, 0⟩] ∧
      Correspondence.sorted (back.map Correspondence.swapped) = found) ∧
    ∃ m, SimilarityMatrix.ofFeatures (fun p q => decide (p.x < q.x)) .row .turnedRow = .ok m ∧
      SimilarityMatrix.ofFeatures (fun q p => decide (p.x < q.x)) .turnedRow .row =
        .ok m.transpose ∧
      m.correspondences Options.standard.thresholds true = [⟨2, 0⟩] ∧
      Correspondence.sorted ((m.transpose.correspondences Options.standard.thresholds true).map
        Correspondence.swapped) = [⟨2, 0⟩] := by
  have hvalid : Options.standard.Valid := Options.standard_valid
  obtain ⟨hplain, hmasked⟩ := crossChecked_symmetric
  refine ⟨rfl, Features.aligned_row, Features.aligned_turnedRow, ?_, ?_⟩
  · rcases hplain Features.row.descriptors Features.turnedRow.descriptors Options.standard rfl with
      ⟨fault, hfault, -⟩ | ⟨found, back, hfound, hback, hsorted⟩
    · rw [matchDescriptors_of_valid hvalid] at hfault
      cases hfault
    · have hlist : back = [⟨0, 2⟩, ⟨1, 0⟩, ⟨2, 1⟩] := by
        rw [eq_of_matchDescriptors hvalid hback]
        decide +kernel
      refine ⟨found, back, hfound, hback, hlist, ?_, hsorted⟩
      rw [← hsorted, hlist]
      exact Correspondence.sorted_eq_of_perm (by decide) (by decide)
  · obtain ⟨m, hm, hm', hsorted⟩ := hmasked (fun p q => decide (p.x < q.x)) _ _
      Features.aligned_row Features.aligned_turnedRow
    have hfound : m.correspondences Options.standard.thresholds true = [⟨2, 0⟩] := by
      rw [SimilarityMatrix.ofFeatures_of_aligned _ Features.aligned_row
        Features.aligned_turnedRow] at hm
      obtain rfl := Except.ok.inj hm
      decide +kernel
    exact ⟨m, hm, hm', hfound, (hsorted _).trans hfound⟩

end FeatureMatching
