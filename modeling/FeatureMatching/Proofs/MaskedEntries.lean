import Mathlib
import FeatureMatching.Proofs.CheckedRun
import FeatureMatching.Proofs.FewerCompetitors

/-!
# The entries of the two matrices

A similarity is a sum of 128 products of bytes, accumulated in 32 bit words. Adding and multiplying
words forgets multiples of `2 ^ 32` only, so the words follow the natural numbers step by step, and
since the whole sum is far below `2 ^ 31` nothing was forgotten: an entry of the plain matrix **is**
that sum (`Descriptor.toInt_dot`).

The guided matrix is filled by a different loop, over positions and descriptors together. Entry by
entry it is the plain matrix with zeros where the test rejects the two positions
(`get?_masked`). A test that rejects no pair leaves the plain matrix, and a guided call then finds
what a plain one does.
-/

set_option autoImplicit false

namespace FeatureMatching

/-! ## A similarity is a sum -/

namespace Descriptor

theorem foldl_add_words (pairs : List (UInt8 × UInt8)) (total : Nat) :
    pairs.foldl (fun sum pair => sum + wordOf pair.1 * wordOf pair.2) (Int32.ofNat total) =
      Int32.ofNat (total + (pairs.map fun pair => pair.1.toNat * pair.2.toNat).sum) := by
  induction pairs generalizing total with
  | nil => simp
  | cons pair pairs ih =>
    have hstep : Int32.ofNat total + wordOf pair.1 * wordOf pair.2 =
        Int32.ofNat (total + pair.1.toNat * pair.2.toNat) := by
      rw [wordOf, wordOf, ← Int32.ofNat_mul, ← Int32.ofNat_add]
    rw [List.foldl_cons, hstep, ih, List.map_cons, List.sum_cons, Nat.add_assoc]

/-- The running sum of a dot product after `k` bins. -/
def partialDot (a b : Descriptor) (k : Nat) : Int32 :=
  ((a.bins.toList.zip b.bins.toList).take k).foldl
    (fun sum pair => sum + wordOf pair.1 * wordOf pair.2) 0

theorem partialDot_binCount (a b : Descriptor) : a.partialDot b binCount = a.dot b := by
  unfold partialDot dot
  rw [List.zipWith_foldl_eq_zip_foldl, List.take_of_length_le (by simp)]

theorem partialDot_succ (a b : Descriptor) (k : Fin binCount) :
    a.partialDot b (k + 1) = a.partialDot b k + wordOf (a.bins.get k) * wordOf (b.bins.get k) := by
  have hk : k.val < (a.bins.toList.zip b.bins.toList).length := by simp [k.isLt]
  have hpair : (a.bins.toList.zip b.bins.toList)[k.val] = (a.bins.get k, b.bins.get k) := by
    simp [Vector.get_eq_getElem]
  unfold partialDot
  rw [List.take_succ_eq_append_getElem hk, List.foldl_append, hpair]
  rfl

theorem take_zip_toList {n k : Nat} (x y : Vector UInt8 n) (hk : k ≤ n) :
    (x.toList.zip y.toList).take k =
      List.ofFn fun i : Fin k => (x.get (i.castLE hk), y.get (i.castLE hk)) := by
  apply List.ext_getElem
  · simp [hk]
  · intro i _ _
    simp [Vector.get_eq_getElem]

theorem partialDot_eq_ofNat (a b : Descriptor) {k : Nat} (hk : k ≤ binCount) :
    a.partialDot b k = Int32.ofNat
      (∑ i : Fin k, (a.bins.get (i.castLE hk)).toNat * (b.bins.get (i.castLE hk)).toNat) := by
  unfold partialDot
  rw [take_zip_toList _ _ hk]
  refine (foldl_add_words _ 0).trans ?_
  rw [List.map_ofFn, List.sum_ofFn, Nat.zero_add]
  rfl

theorem sum_products_le (a b : Descriptor) {k : Nat} (hk : k ≤ binCount) :
    ∑ i : Fin k, (a.bins.get (i.castLE hk)).toNat * (b.bins.get (i.castLE hk)).toNat ≤
      binCount * maxProduct := by
  refine (Finset.sum_le_card_nsmul _ _ maxProduct fun i _ => product_le _ _).trans ?_
  rw [Finset.card_univ, Fintype.card_fin, smul_eq_mul]
  exact Nat.mul_le_mul_right _ hk

/-- **No running sum wraps**: each is the integer sum of the products so far. -/
theorem toInt_partialDot (a b : Descriptor) {k : Nat} (hk : k ≤ binCount) :
    (a.partialDot b k).toInt =
      ∑ i : Fin k, ((a.bins.get (i.castLE hk)).toNat : Int) * (b.bins.get (i.castLE hk)).toNat := by
  have hfits : binCount * maxProduct < 2 ^ 31 := by decide
  rw [partialDot_eq_ofNat a b hk,
    Int32.toInt_ofNat_of_lt ((sum_products_le a b hk).trans_lt hfits)]
  push_cast
  rfl

theorem dot_eq_ofNat (a b : Descriptor) :
    a.dot b = Int32.ofNat (∑ k : Fin binCount, (a.bins.get k).toNat * (b.bins.get k).toNat) := by
  rw [← partialDot_binCount, partialDot_eq_ofNat a b le_rfl]
  rfl

/-- **A similarity is the integer sum of the products of the bins.** -/
theorem toInt_dot (a b : Descriptor) :
    (a.dot b).toInt = ∑ k : Fin binCount, ((a.bins.get k).toNat : Int) * (b.bins.get k).toNat := by
  rw [← partialDot_binCount, toInt_partialDot a b le_rfl]
  rfl

end Descriptor

/-! ## Entries by number -/

namespace SimilarityMatrix

theorem get?_ofFn {rows cols : Nat} (f : Fin rows → Fin cols → Int32) {i j : Nat} (hi : i < rows)
    (hj : j < cols) : (ofFn f).get? i j = some (f ⟨i, hi⟩ ⟨j, hj⟩) := by
  have h : i < (ofFn f).rows ∧ j < (ofFn f).cols := ⟨hi, hj⟩
  rw [get?, dif_pos h]
  exact congrArg some (get_ofFn f ⟨i, hi⟩ ⟨j, hj⟩)

theorem get?_ofDescriptors {a b : Array Descriptor} {i j : Nat} (hi : i < a.size)
    (hj : j < b.size) : (ofDescriptors a b).get? i j = some (a[i].dot b[j]) :=
  get?_ofFn _ hi hj

/-- **The guided matrix is the plain one with the rejected pairs set to zero.** -/
theorem get?_masked {rejects : Point Float32 → Point Float32 → Bool} {a b : Features}
    (ha : a.Aligned) (hb : b.Aligned) {i j : Nat} (hi : i < a.keypoints.size)
    (hj : j < b.keypoints.size) :
    (masked rejects a b ha hb).get? i j =
      if rejects a.keypoints[i].location b.keypoints[j].location then some 0
      else (ofDescriptors a.descriptors b.descriptors).get? i j := by
  have hi' : i < a.descriptors.size := ha ▸ hi
  have hj' : j < b.descriptors.size := hb ▸ hj
  rw [get?_ofDescriptors hi' hj']
  refine (get?_ofFn _ hi' hj').trans ?_
  rw [apply_ite some]
  rfl

theorem masked_eq_ofDescriptors {rejects : Point Float32 → Point Float32 → Bool} {a b : Features}
    (ha : a.Aligned) (hb : b.Aligned)
    (h : ∀ p ∈ a.keypoints, ∀ q ∈ b.keypoints, rejects p.location q.location = false) :
    masked rejects a b ha hb = ofDescriptors a.descriptors b.descriptors := by
  unfold masked ofDescriptors
  congr 1
  funext i j
  have hkept : rejects (a.location ha i) (b.location hb j) = false :=
    h _ (Array.getElem_mem (ha.symm ▸ i.isLt)) _ (Array.getElem_mem (hb.symm ▸ j.isLt))
  rw [hkept]
  rfl

end SimilarityMatrix

/-- **The guided matrix is the plain matrix masked by the test.** For aligned images, with features
or without, the guided matrix is made, by the function that the calls use and by the loop that fills
it row after row; it has a row for each feature of the first image and a column for each of the
second. An entry is 0 if the test rejects the two positions and the entry of the plain matrix
otherwise, which is the integer sum of the products of the bins. So a model under which no pair is
rejected makes no difference to a call with valid options. -/
theorem guided_matrix_masks_plain [ArcCosine] :
    (∀ (rejects : Float32 → Float32 → Float32 → Float32 → Bool) (a b : Features),
      a.Aligned → b.Aligned →
      ∃ guided,
        SimilarityMatrix.ofFeatures (fun p q => rejects p.x p.y q.x q.y) a b = .ok guided ∧
        (Storage.zeros a.descriptors.size b.descriptors.size).fill?
          (maskedRow? (fun p q => rejects p.x p.y q.x q.y) a b) = some guided.storage ∧
        guided.rows = a.descriptors.size ∧ guided.cols = b.descriptors.size ∧
        ∀ (i j : Nat) (_ : i < a.keypoints.size) (_ : j < b.keypoints.size),
          guided.get? i j =
            if rejects a.keypoints[i].x a.keypoints[i].y b.keypoints[j].x b.keypoints[j].y then
              some 0
            else (SimilarityMatrix.ofDescriptors a.descriptors b.descriptors).get? i j) ∧
    (∀ a b : Array Descriptor,
      (Storage.zeros a.size b.size).fill? (comparedRow? a b) =
        some (SimilarityMatrix.ofDescriptors a b).storage ∧
      ∀ (i j : Nat) (_ : i < a.size) (_ : j < b.size), ∃ s,
        (SimilarityMatrix.ofDescriptors a b).get? i j = some s ∧
        s.toInt = ∑ k : Fin binCount, ((a[i].bins.get k).toNat : Int) * (b[j].bins.get k).toNat) ∧
    (∀ options : Options, options.Valid → ∀ geometry : TwoView,
      (geometry.configuration.isEpipolar || geometry.configuration.isHomography) = true →
      ∀ a b : Features, a.Aligned → b.Aligned →
      (∀ p ∈ a.keypoints, ∀ q ∈ b.keypoints,
        (Filter.ofGeometry geometry options.maxError).rejects p.location q.location = false) →
      ∃ found, matchGuided a b geometry options = .ok found ∧
        matchDescriptors a.descriptors b.descriptors options = .ok found) := by
  refine ⟨?_, ?_, ?_⟩
  · intro rejects a b ha hb
    refine ⟨_, SimilarityMatrix.ofFeatures_of_aligned _ ha hb, fill?_maskedRow? _ ha hb, rfl,
      rfl, ?_⟩
    intro i j hi hj
    exact SimilarityMatrix.get?_masked ha hb hi hj
  · intro a b
    refine ⟨fill?_comparedRow? a b, ?_⟩
    intro i j hi hj
    exact ⟨_, SimilarityMatrix.get?_ofDescriptors hi hj, Descriptor.toInt_dot _ _⟩
  · intro options hvalid geometry hmodel a b ha hb hkept
    have hsupported := (Filter.isSupported_ofGeometry geometry options.maxError).trans hmodel
    refine ⟨_, ?_, matchDescriptors_of_valid hvalid _ _⟩
    rw [matchGuided_of_valid hvalid hsupported ha hb,
      SimilarityMatrix.masked_eq_ofDescriptors ha hb hkept]

/-- Options with a threshold that reaches from one corner to the other. -/
def Options.farReaching : Options := { Options.standard with maxError := 200 }

/-- A test that compares the two horizontal coordinates masks one of the two mixed pairs of corners,
and a threshold that both mixed pairs meet masks none: both calls then find the two corners. -/
theorem guided_matrix_masks_plain_corners :
    (∃ guided,
      SimilarityMatrix.ofFeatures (fun p q => decide (p.x < q.x)) .corners .corners = .ok guided ∧
      guided.get? 0 1 = some 0 ∧ guided.get? 1 0 = some 184320) ∧
    (∃ s, (SimilarityMatrix.ofDescriptors Features.corners.descriptors
      Features.corners.descriptors).get? 0 0 = some s ∧ s.toInt = 128 * (45 * 45)) ∧
    ∃ found, matchGuided .corners .corners .still .farReaching = .ok found ∧
      matchDescriptors Features.corners.descriptors Features.corners.descriptors .farReaching =
        .ok found ∧
      found = [⟨0, 0⟩, ⟨1, 1⟩] := by
  have haligned := Features.aligned_corners
  obtain ⟨hmasked, hplain, hcalls⟩ := guided_matrix_masks_plain
  refine ⟨?_, ?_, ?_⟩
  · obtain ⟨guided, hguided, -, -, -, hentry⟩ :=
      hmasked (fun x _ x' _ => decide (x < x')) _ _ haligned haligned
    refine ⟨guided, hguided, ?_, ?_⟩
    · rw [hentry 0 1 (by decide) (by decide)]
      decide +kernel
    · rw [hentry 1 0 (by decide) (by decide)]
      decide +kernel
  · obtain ⟨-, hsum⟩ := hplain Features.corners.descriptors Features.corners.descriptors
    obtain ⟨s, hs, hvalue⟩ := hsum 0 0 (by decide) (by decide)
    refine ⟨s, hs, hvalue.trans ?_⟩
    simp [Features.corners]
  · have hvalid : Options.farReaching.Valid := by decide +kernel
    obtain ⟨found, hguided, hplain⟩ := hcalls .farReaching hvalid .still rfl _ _ haligned haligned
      (by decide +kernel)
    refine ⟨found, hguided, hplain, ?_⟩
    rw [eq_of_matchDescriptors hvalid hplain]
    decide +kernel

end FeatureMatching
