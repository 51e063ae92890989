import Mathlib
import FeatureMatching.Proofs.Storage
import FeatureMatching.Proofs.Outcomes

/-!
# Runs in which every step is checked

The definitions that run index with proofs and add in words, so they cannot say that an index was
past the end or that a sum did not fit. Here the same runs are written with operations that can
fail: a sum or product is computed in the integers and has to fit a word, every list is read and
written by number, and the matrix is a block of entries (`Storage`), cut into parts of a length that
has to be positive. `none` is a run that such an operation stopped.

Every checked run is `some` of the run it checks (`plainRun?_eq`, `guidedRun?_eq`), whatever the
images, the geometry and the options are. From the bottom up:

* a dot product is at most `128 * 255 ^ 2` at every step (`Descriptor.dot?_eq`);
* a block is cut into as many rows as there are features, and not cut at all if it has no entries
  (`Storage.fill?_zeros`);
* the double loop that exchanges the images writes every entry (`Storage.exchange?_zeros`);
* a row chooses a column of the matrix, so the cross check reads a choice that exists
  (`confirmed?_eq`).

Arithmetic on floats always has an answer, so the residuals and the angles need no check. A fresh
block is one of `Storage.zeros`, which has no limit: an image with so many features that the block
cannot be allocated is not a case of these runs.
-/

set_option autoImplicit false

namespace FeatureMatching

/-! ## Words -/

/-- The word of an integer, if it fits. -/
def word? (n : Int) : Option Int32 :=
  if -2 ^ 31 ≤ n ∧ n < 2 ^ 31 then some (.ofInt n) else none

def addWords? (x y : Int32) : Option Int32 := word? (x.toInt + y.toInt)

def mulWords? (x y : Int32) : Option Int32 := word? (x.toInt * y.toInt)

theorem word?_natCast {n : Nat} (h : n < 2 ^ 31) : word? n = some (.ofNat n) := by
  unfold word?
  rw [if_pos (by omega), Int32.ofInt_eq_ofNat]

theorem addWords?_ofNat {m n : Nat} (h : m + n < 2 ^ 31) :
    addWords? (.ofNat m) (.ofNat n) = some (.ofNat m + .ofNat n) := by
  unfold addWords?
  rw [Int32.toInt_ofNat_of_lt (by omega), Int32.toInt_ofNat_of_lt (by omega), ← Int.natCast_add,
    word?_natCast h, Int32.ofNat_add]

theorem mulWords?_ofNat {m n : Nat} (hm : m < 2 ^ 31) (hn : n < 2 ^ 31) (h : m * n < 2 ^ 31) :
    mulWords? (.ofNat m) (.ofNat n) = some (.ofNat m * .ofNat n) := by
  unfold mulWords?
  rw [Int32.toInt_ofNat_of_lt hm, Int32.toInt_ofNat_of_lt hn, ← Int.natCast_mul, word?_natCast h,
    Int32.ofNat_mul]

namespace Descriptor

/-- The largest product of two bins. -/
def maxProduct : Nat := 255 * 255

theorem product_le (x y : UInt8) : x.toNat * y.toNat ≤ maxProduct :=
  Nat.mul_le_mul (Nat.le_of_lt_succ x.toNat_lt) (Nat.le_of_lt_succ y.toNat_lt)

/-- A sum of products after one more pair of bins. -/
def accumulate? (total : Int32) (pair : UInt8 × UInt8) : Option Int32 := do
  addWords? total (← mulWords? (wordOf pair.1) (wordOf pair.2))

theorem accumulate?_ofNat {total : Nat} {pair : UInt8 × UInt8}
    (h : total + maxProduct < 2 ^ 31) :
    accumulate? (.ofNat total) pair =
      some (.ofNat (total + pair.1.toNat * pair.2.toNat)) := by
  have hproduct := product_le pair.1 pair.2
  have hx := pair.1.toNat_lt
  have hy := pair.2.toNat_lt
  unfold accumulate? wordOf
  rw [mulWords?_ofNat (by omega) (by omega) (by omega), Option.bind_eq_bind, Option.bind_some,
    ← Int32.ofNat_mul, addWords?_ofNat (by omega), ← Int32.ofNat_add]

/-- The running sum of `k` pairs is at most `k` times the largest product, so as long as that fits
a word no step stops. -/
theorem foldlM_accumulate? (pairs : List (UInt8 × UInt8)) (total : Nat)
    (h : total + maxProduct * pairs.length < 2 ^ 31) :
    pairs.foldlM accumulate? (.ofNat total) =
      some (pairs.foldl (fun sum pair => sum + wordOf pair.1 * wordOf pair.2) (.ofNat total)) := by
  induction pairs generalizing total with
  | nil => rfl
  | cons pair pairs ih =>
    have hproduct := product_le pair.1 pair.2
    rw [List.length_cons, Nat.mul_succ] at h
    rw [List.foldlM_cons, accumulate?_ofNat (by omega), Option.bind_eq_bind, Option.bind_some,
      ih _ (by omega), List.foldl_cons, Int32.ofNat_add, Int32.ofNat_mul]
    rfl

/-- The dot product in checked words. -/
def dot? (a b : Descriptor) : Option Int32 :=
  (a.bins.toList.zip b.bins.toList).foldlM accumulate? 0

theorem dot?_eq (a b : Descriptor) : a.dot? b = some (a.dot b) := by
  have hlength : (a.bins.toList.zip b.bins.toList).length = binCount := by simp
  unfold dot? dot
  rw [List.zipWith_foldl_eq_zip_foldl]
  refine foldlM_accumulate? _ 0 ?_
  rw [hlength]
  decide

end Descriptor

/-! ## The entries of a matrix -/

theorem SimilarityMatrix.row_ofFn {rows cols : Nat} (f : Fin rows → Fin cols → Int32)
    (r : Fin rows) : (ofFn f).row r = List.ofFn (f r) :=
  congrArg List.ofFn (funext (get_ofFn f r))

/-- A row of similarities: one descriptor compared with every descriptor of the other image. -/
def comparedRow? (a b : Array Descriptor) (i : Nat) : Option (List Int32) := do
  let d ← a[i]?
  b.toList.mapM d.dot?

theorem comparedRow?_eq (a b : Array Descriptor) (i : Fin a.size) :
    comparedRow? a b i = some ((SimilarityMatrix.ofDescriptors a b).row i) := by
  have hlist : b.toList = List.ofFn fun j : Fin b.size => b[j] :=
    List.ext_getElem (by simp) (by simp)
  unfold comparedRow? SimilarityMatrix.ofDescriptors
  rw [Array.getElem?_eq_getElem i.isLt, Option.bind_eq_bind, Option.bind_some, hlist,
    SimilarityMatrix.row_ofFn]
  exact mapM_ofFn fun j => Descriptor.dot?_eq _ _

theorem fill?_comparedRow? (a b : Array Descriptor) :
    (Storage.zeros a.size b.size).fill? (comparedRow? a b) =
      some (SimilarityMatrix.ofDescriptors a b).storage :=
  Storage.fill?_zeros (m := .ofDescriptors a b) (comparedRow?_eq a b)

/-- A row of similarities in which the pairs that a test rejects are zero. -/
def maskedRow? (rejects : Point Float32 → Point Float32 → Bool) (a b : Features) (i : Nat) :
    Option (List Int32) := do
  let p ← a.keypoints[i]?
  let d ← a.descriptors[i]?
  (b.keypoints.toList.zip b.descriptors.toList).mapM fun other =>
    if rejects p.location other.1.location then some 0 else d.dot? other.2

theorem maskedRow?_eq (rejects : Point Float32 → Point Float32 → Bool) {a b : Features}
    (ha : a.Aligned) (hb : b.Aligned) (i : Fin a.descriptors.size) :
    maskedRow? rejects a b i = some ((SimilarityMatrix.masked rejects a b ha hb).row i) := by
  have hfirst (k : Fin a.descriptors.size) : k.val < a.keypoints.size := ha.symm ▸ k.isLt
  have hsecond (k : Fin b.descriptors.size) : k.val < b.keypoints.size := hb.symm ▸ k.isLt
  have hlist : b.keypoints.toList.zip b.descriptors.toList =
      List.ofFn fun j : Fin b.descriptors.size =>
        (b.keypoints[Fin.mk j.val (hsecond j)], b.descriptors[j]) :=
    List.ext_getElem (by simp [hb.symm.le]) (by simp)
  unfold maskedRow? SimilarityMatrix.masked
  rw [Array.getElem?_eq_getElem (hfirst i), Array.getElem?_eq_getElem i.isLt, hlist,
    SimilarityMatrix.row_ofFn]
  refine mapM_ofFn fun j => ?_
  rw [Descriptor.dot?_eq, apply_ite some]
  rfl

theorem fill?_maskedRow? (rejects : Point Float32 → Point Float32 → Bool) {a b : Features}
    (ha : a.Aligned) (hb : b.Aligned) :
    (Storage.zeros a.descriptors.size b.descriptors.size).fill? (maskedRow? rejects a b) =
      some (SimilarityMatrix.masked rejects a b ha hb).storage :=
  Storage.fill?_zeros (m := .masked rejects a b ha hb) (maskedRow?_eq rejects ha hb)

/-! ## Searching -/

namespace Choices

/-- The pairs that lead back, each found by reading the choice of its second feature. -/
def confirmed? (backward : Choices) : List Correspondence → Option (List Correspondence)
  | [] => some []
  | c :: rest => do
    let back ← backward.chosen[c.second]?
    let kept ← backward.confirmed? rest
    return if back = some c.first then c :: kept else kept

theorem confirmed?_eq {backward : Choices} {cs : List Correspondence}
    (h : ∀ c ∈ cs, c.second < backward.chosen.size) :
    backward.confirmed? cs = some (cs.filter backward.confirms) := by
  induction cs with
  | nil => rfl
  | cons c rest ih =>
    obtain ⟨hc, hrest⟩ := List.forall_mem_cons.mp h
    have hback : backward.of c.second = backward.chosen[c.second] := by
      simp [of, hc]
    simp only [confirmed?, ih hrest, Array.getElem?_eq_getElem hc, List.filter_cons, confirms,
      hback, Option.bind_eq_bind, Option.bind_some, Option.pure_def, beq_iff_eq]

end Choices

variable [ArcCosine]

/-- The choices of the rows of a block, each row cut out of it. -/
def Storage.choices? (s : Storage) (t : Thresholds) : Option Choices := do
  let chosen ← (List.range s.rows).mapM fun row =>
    (s.row? row).map fun entries => t.choose entries.toList
  return ⟨chosen.toArray⟩

theorem Storage.choices?_storage (m : SimilarityMatrix) (t : Thresholds) :
    m.storage.choices? t = some (Choices.ofMatrix t m) := by
  have hchosen (r : Fin m.rows) :
      (m.storage.row? r).map (fun entries => t.choose entries.toList) =
        some (t.choose (m.row r)) := by
    rw [row?_storage, Option.map_some]
  have hrows : (List.range m.storage.rows).mapM (fun row =>
      (m.storage.row? row).map fun entries => t.choose entries.toList) =
        some (List.ofFn fun r => t.choose (m.row r)) := mapM_range hchosen
  unfold choices?
  rw [hrows]
  simp [Choices.ofMatrix]

/-- The search of a block in checked steps. -/
def Storage.search? (s : Storage) (t : Thresholds) (crossCheck : Bool) : Option Search := do
  let forward ← s.choices? t
  let all := forward.correspondences
  if crossCheck then
    let exchanged ← s.exchange? (zeros s.cols s.rows)
    let backward ← exchanged.choices? t
    return ⟨s.rows, s.cols, crossCheck, forward.count, ← backward.confirmed? all⟩
  else return ⟨s.rows, s.cols, crossCheck, forward.count, all⟩

theorem Storage.search?_storage (m : SimilarityMatrix) (t : Thresholds) (crossCheck : Bool) :
    m.storage.search? t crossCheck = some (m.search t crossCheck) := by
  have hinside : ∀ c ∈ (Choices.ofMatrix t m).correspondences,
      c.second < (Choices.ofMatrix t m.transpose).chosen.size := by
    intro c hc
    have hfound : c ∈ m.correspondences t false := hc
    rw [Choices.size_chosen_ofMatrix]
    exact (SimilarityMatrix.inside_of_mem_correspondences hfound).2
  have hexchange : m.storage.exchange? (zeros m.storage.cols m.storage.rows) =
      some m.transpose.storage := exchange?_zeros m
  unfold search?
  rw [choices?_storage]
  cases crossCheck with
  | false => rfl
  | true =>
    simp only [hexchange, choices?_storage, Choices.confirmed?_eq hinside, Option.bind_eq_bind,
      Option.bind_some, if_true]
    rfl

/-! ## The calls -/

/-- Comparing two lists of descriptors and searching the result, in checked steps. The block of
similarities can have any size. -/
def plainRun? (a b : Array Descriptor) (options : Options) : Option (Except Fault Search) :=
  match options.validate with
  | .error fault => some (.error fault)
  | .ok () => do
    let s ← (Storage.zeros a.size b.size).fill? (comparedRow? a b)
    return .ok (← s.search? options.thresholds options.crossCheck)

/-- Comparing two images under a geometry and searching the result, in checked steps. The block of
similarities can have any size. -/
def guidedRun? (a b : Features) (geometry : TwoView) (options : Options) :
    Option (Except Fault (Option Search)) :=
  match options.validate with
  | .error fault => some (.error fault)
  | .ok () =>
    let filter := Filter.ofGeometry geometry options.maxError
    if filter.isSupported = false then some (.ok none)
    else if ¬a.Aligned then
      some (.error (.misaligned .first a.keypoints.size a.descriptors.size))
    else if ¬b.Aligned then
      some (.error (.misaligned .second b.keypoints.size b.descriptors.size))
    else do
      let out := Storage.zeros a.descriptors.size b.descriptors.size
      let s ← out.fill? (maskedRow? filter.rejects a b)
      return .ok (some (← s.search? options.thresholds options.crossCheck))

/-- **Matching by descriptors never stops.** -/
theorem plainRun?_eq (a b : Array Descriptor) (options : Options) :
    plainRun? a b options = some (plainSearch a b options) := by
  unfold plainRun? plainSearch
  cases options.validate with
  | error fault => rfl
  | ok =>
    simp only [fill?_comparedRow?, Storage.search?_storage, Option.bind_eq_bind,
      Option.bind_some]
    rfl

/-- **Guided matching never stops.** -/
theorem guidedRun?_eq (a b : Features) (geometry : TwoView) (options : Options) :
    guidedRun? a b geometry options = some (guidedSearch a b geometry options) := by
  have houtcome := guidedSearch_outcome a b geometry options
  unfold guidedRun?
  generalize guidedSearch a b geometry options = outcome at houtcome
  cases houtcome with
  | invalid violation h => rw [Options.validate_of_violation h]
  | unsupported valid h =>
    rw [options.validate_eq_ok_iff.mpr valid]
    exact if_pos h
  | firstMisaligned valid supported h =>
    rw [options.validate_eq_ok_iff.mpr valid]
    exact (if_neg (ne_false_of_eq_true supported)).trans (if_pos h)
  | secondMisaligned valid supported ha h =>
    rw [options.validate_eq_ok_iff.mpr valid]
    refine (if_neg (ne_false_of_eq_true supported)).trans ?_
    exact (if_neg (not_not.mpr ha)).trans (if_pos h)
  | searched valid supported ha hb =>
    rw [options.validate_eq_ok_iff.mpr valid]
    simp only [ne_false_of_eq_true supported, ha, hb, not_true, if_false]
    rw [fill?_maskedRow? _ ha hb, Option.bind_eq_bind, Option.bind_some,
      Storage.search?_storage]
    rfl

def matchDescriptors? (a b : Array Descriptor) (options : Options) :
    Option (Except Fault (List Correspondence)) :=
  (plainRun? a b options).map fun outcome => outcome.map Search.found

def matchGuided? (a b : Features) (geometry : TwoView) (options : Options) :
    Option (Except Fault (List Correspondence)) :=
  (guidedRun? a b geometry options).map fun outcome =>
    outcome.map fun found => (found.map Search.found).getD []

def refineInliers? (a b : Features) (geometry : TwoView) (options : Options) :
    Option (Except Fault Unit × TwoView) :=
  (guidedRun? a b geometry options).map fun outcome =>
    (outcome.map fun _ => (), geometry.updated outcome)

theorem matchDescriptors?_eq (a b : Array Descriptor) (options : Options) :
    matchDescriptors? a b options = some (matchDescriptors a b options) := by
  rw [matchDescriptors?, plainRun?_eq]
  rfl

theorem matchGuided?_eq (a b : Features) (geometry : TwoView) (options : Options) :
    matchGuided? a b geometry options = some (matchGuided a b geometry options) := by
  rw [matchGuided?, guidedRun?_eq]
  rfl

theorem refineInliers?_eq (a b : Features) (geometry : TwoView) (options : Options) :
    refineInliers? a b geometry options = some (refineInliers a b geometry options) := by
  rw [refineInliers?, guidedRun?_eq]
  rfl

end FeatureMatching
