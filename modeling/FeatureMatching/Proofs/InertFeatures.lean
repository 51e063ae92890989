import Mathlib
import FeatureMatching.Proofs.Exchange
import FeatureMatching.Proofs.FewerCompetitors

/-!
# Features that cannot be matched change nothing

An entry that is not positive is never chosen, and it is never the runner-up either, because both
places start at zero. So what such entries are, how many there are and where they stand makes no
difference: a row that is **padded** with them has the same leader and the same runner-up, and the
angle tests have nothing else to look at (`Pads.accepts_iff`). That holds of every pair of
thresholds, since the tests get the same numbers.

A search is padded in both directions at once, by rows and by columns whose entries are not
positive, and each of the two index spaces shifts on its own (`Padded.correspondences_eq`). The rest
is finding paddings: a column or a row that is inserted, negative entries that become zero, and a
feature whose pairs a geometry rejects, since masking makes all its entries zero.
-/

set_option autoImplicit false

namespace FeatureMatching

open Numeric

/-! ## Padded rows -/

/-- Two entries that a search cannot tell apart. -/
def Alike (x y : Int32) : Prop := x = y ∨ x ≤ 0 ∧ y ≤ 0

namespace Alike

variable {x y s : Int32}

theorem symm (h : Alike x y) : Alike y x := by
  rcases h with h | ⟨hx, hy⟩
  · exact Or.inl h.symm
  · exact Or.inr ⟨hy, hx⟩

theorem eq_of_pos (h : Alike x y) (positive : 0 < y) : x = y := by
  rcases h with h | ⟨-, hy⟩
  · exact h
  · exact absurd hy (Int32.not_le.mpr positive)

theorem le_of_le (h : Alike x y) (hs : 0 ≤ s) (hx : x ≤ s) : y ≤ s := by
  rcases h with h | ⟨-, hy⟩
  · exact h ▸ hx
  · exact Int32.le_trans hy hs

theorem lt_of_lt (h : Alike x y) (hs : 0 < s) (hx : x < s) : y < s := by
  rcases h with h | ⟨-, hy⟩
  · exact h ▸ hx
  · exact Int32.lt_of_le_of_lt hy hs

end Alike

/-- The first row is the second one with entries put in between that are not positive. -/
structure Pads {n k : Nat} (φ : Fin k → Fin n) (row' : Fin n → Int32) (row : Fin k → Int32) :
    Prop where
  increasing : StrictMono φ
  alike : ∀ j, Alike (row' (φ j)) (row j)
  rest : ∀ i, (∀ j, φ j ≠ i) → row' i ≤ 0

namespace Pads

variable {n k : Nat} {φ : Fin k → Fin n} {row' : Fin n → Int32} {row : Fin k → Int32} {c : Fin k}
  {t : Thresholds}

theorem le_of_le (h : Pads φ row' row) {s : Int32} (hs : 0 ≤ s) {i : Fin n}
    (hall : ∀ j, φ j = i → row j ≤ s) : row' i ≤ s := by
  by_cases hi : ∃ j, φ j = i
  · obtain ⟨j, rfl⟩ := hi
    exact (h.alike j).symm.le_of_le hs (hall j rfl)
  · exact Int32.le_trans (h.rest i (not_exists.mp hi)) hs

theorem lt_of_lt (h : Pads φ row' row) {s : Int32} (hs : 0 < s) {i : Fin n}
    (hall : ∀ j, φ j = i → row j < s) : row' i < s := by
  by_cases hi : ∃ j, φ j = i
  · obtain ⟨j, rfl⟩ := hi
    exact (h.alike j).symm.lt_of_lt hs (hall j rfl)
  · exact Int32.lt_of_le_of_lt (h.rest i (not_exists.mp hi)) hs

/-- **Padding leaves the runner-up.** The two have the same upper bounds. -/
theorem runnerUp_eq (h : Pads φ row' row) : runnerUp row' (φ c) = runnerUp row c := by
  have hbounds (s : Int32) : runnerUp row' (φ c) ≤ s ↔ runnerUp row c ≤ s := by
    rw [runnerUp_le_iff, runnerUp_le_iff]
    refine and_congr_right fun hs => ?_
    constructor
    · intro hall j hne
      exact (h.alike j).le_of_le hs (hall (φ j) (h.increasing.injective.ne hne))
    · intro hall i hne
      refine h.le_of_le hs fun j hj => hall j ?_
      rintro rfl
      exact hne hj.symm
  exact Int32.le_antisymm ((hbounds _).mpr (Int32.le_refl _)) ((hbounds _).mp (Int32.le_refl _))

theorem firstLargest_iff (h : Pads φ row' row) (positive : 0 < row c) :
    FirstLargest row' (φ c) ↔ FirstLargest row c := by
  have heq : row' (φ c) = row c := (h.alike c).eq_of_pos positive
  unfold FirstLargest
  rw [heq]
  constructor
  · rintro ⟨largest, first⟩
    constructor
    · intro j
      exact (h.alike j).le_of_le (Int32.le_of_lt positive) (largest (φ j))
    · intro j hj
      exact (h.alike j).lt_of_lt positive (first (φ j) (h.increasing hj))
  · rintro ⟨largest, first⟩
    constructor
    · intro i
      exact h.le_of_le (Int32.le_of_lt positive) fun j _ => largest j
    · intro i hi
      refine h.lt_of_lt positive fun j hj => first j ?_
      rw [← hj] at hi
      exact h.increasing.lt_iff_lt.mp hi

/-- **Padding leaves the choice of a row.** -/
theorem accepts_iff [ArcCosine] (h : Pads φ row' row) : t.Accepts row' (φ c) ↔ t.Accepts row c := by
  constructor
  · intro haccepts
    have heq : row c = row' (φ c) := (h.alike c).symm.eq_of_pos haccepts.positive
    have positive : 0 < row c := heq ▸ haccepts.positive
    refine ⟨positive, (h.firstLargest_iff positive).mp haccepts.leads, ?_, ?_⟩
    · rw [heq]
      exact haccepts.near
    · rw [heq, ← h.runnerUp_eq]
      exact haccepts.clear
  · intro haccepts
    have heq : row' (φ c) = row c := (h.alike c).eq_of_pos haccepts.positive
    refine ⟨heq ▸ haccepts.positive, (h.firstLargest_iff haccepts.positive).mpr haccepts.leads,
      ?_, ?_⟩
    · rw [heq]
      exact haccepts.near
    · rw [heq, h.runnerUp_eq]
      exact haccepts.clear

end Pads

/-! ## Padded searches -/

def Correspondence.renumbered (σ τ : Nat → Nat) (p : Correspondence) : Correspondence :=
  ⟨σ p.first, τ p.second⟩

/-- The first matrix is the second one with rows and columns put in between that have no positive
entry. -/
structure Padded {n n' k k' : Nat} (φ : Fin n → Fin n') (ψ : Fin k → Fin k')
    (big : Fin n' → Fin k' → Int32) (small : Fin n → Fin k → Int32) : Prop where
  rows : StrictMono φ
  cols : StrictMono ψ
  alike : ∀ r c, Alike (big (φ r) (ψ c)) (small r c)
  restRow : ∀ i, (∀ r, φ r ≠ i) → ∀ j, big i j ≤ 0
  restCol : ∀ j, (∀ c, ψ c ≠ j) → ∀ i, big i j ≤ 0

namespace Padded

variable {n n' k k' : Nat} {φ : Fin n → Fin n'} {ψ : Fin k → Fin k'}
  {big : Fin n' → Fin k' → Int32} {small : Fin n → Fin k → Int32} {t : Thresholds}
  {crossCheck : Bool}

theorem row (h : Padded φ ψ big small) (r : Fin n) : Pads ψ (big (φ r)) (small r) where
  increasing := h.cols
  alike := h.alike r
  rest j hj := h.restCol j hj (φ r)

theorem column (h : Padded φ ψ big small) (c : Fin k) :
    Pads φ (fun i => big i (ψ c)) (fun r => small r c) where
  increasing := h.rows
  alike r := h.alike r c
  rest i hi := h.restRow i hi (ψ c)

variable [ArcCosine]

theorem mem_iff (h : Padded φ ψ big small) {r : Fin n} {c : Fin k} :
    ⟨φ r, ψ c⟩ ∈ (SimilarityMatrix.ofFn big).correspondences t crossCheck ↔
      ⟨r, c⟩ ∈ (SimilarityMatrix.ofFn small).correspondences t crossCheck := by
  rw [SimilarityMatrix.mem_correspondences_ofFn, SimilarityMatrix.mem_correspondences_ofFn,
    (h.row r).accepts_iff, (h.column c).accepts_iff]

/-- A pair that is found has a positive entry, so none of its features is padding. -/
theorem exists_of_mem (h : Padded φ ψ big small) {p : Correspondence}
    (hp : p ∈ (SimilarityMatrix.ofFn big).correspondences t crossCheck) :
    ∃ r c, p = ⟨φ r, ψ c⟩ := by
  have hi : p.first < n' := (SimilarityMatrix.inside_of_mem_correspondences hp).1
  have hj : p.second < k' := (SimilarityMatrix.inside_of_mem_correspondences hp).2
  obtain ⟨hrow, -⟩ :=
    (SimilarityMatrix.mem_correspondences_ofFn (r := ⟨p.first, hi⟩) (c := ⟨p.second, hj⟩)).mp hp
  have hfirst : ∃ r, φ r = ⟨p.first, hi⟩ := by
    by_contra hnone
    exact absurd (h.restRow _ (not_exists.mp hnone) _) (Int32.not_le.mpr hrow.positive)
  have hsecond : ∃ c, ψ c = ⟨p.second, hj⟩ := by
    by_contra hnone
    exact absurd (h.restCol _ (not_exists.mp hnone) _) (Int32.not_le.mpr hrow.positive)
  obtain ⟨r, hr⟩ := hfirst
  obtain ⟨c, hc⟩ := hsecond
  exact ⟨r, c, by rw [hr, hc]⟩

/-- **A padded search finds the same pairs in the same order**, under their new numbers. -/
theorem correspondences_eq (h : Padded φ ψ big small) (σ τ : Nat → Nat)
    (hσ : ∀ r : Fin n, σ r = φ r) (hτ : ∀ c : Fin k, τ c = ψ c) :
    (SimilarityMatrix.ofFn big).correspondences t crossCheck =
      ((SimilarityMatrix.ofFn small).correspondences t crossCheck).map
        (Correspondence.renumbered σ τ) := by
  have hbig := (SimilarityMatrix.ofFn big).correspondences_increasing t crossCheck
  have hsmall := (SimilarityMatrix.ofFn small).correspondences_increasing t crossCheck
  refine hbig.eq_of_mem_iff (List.pairwise_map.mpr (hsmall.imp_of_mem ?_)) ?_
  · intro p q hp hq hlt
    have hi : p.first < n := (SimilarityMatrix.inside_of_mem_correspondences hp).1
    have hi' : q.first < n := (SimilarityMatrix.inside_of_mem_correspondences hq).1
    have hnew : φ ⟨p.first, hi⟩ < φ ⟨q.first, hi'⟩ := h.rows hlt
    show σ p.first < σ q.first
    rw [hσ ⟨p.first, hi⟩, hσ ⟨q.first, hi'⟩]
    exact hnew
  · intro p
    rw [List.mem_map]
    constructor
    · intro hp
      obtain ⟨r, c, rfl⟩ := h.exists_of_mem hp
      exact ⟨⟨r, c⟩, h.mem_iff.mp hp, by rw [Correspondence.renumbered, hσ, hτ]⟩
    · rintro ⟨q, hq, rfl⟩
      have hi : q.first < n := (SimilarityMatrix.inside_of_mem_correspondences hq).1
      have hj : q.second < k := (SimilarityMatrix.inside_of_mem_correspondences hq).2
      have hmem := (h.mem_iff (r := ⟨q.first, hi⟩) (c := ⟨q.second, hj⟩)).mpr hq
      rwa [← hσ, ← hτ] at hmem

end Padded

/-! ## Inserted rows and columns -/

/-- The number of a feature after one was inserted at place `p`. -/
def shifted (p i : Nat) : Nat := if i < p then i else i + 1

theorem shifted_eq_succAbove {n : Nat} (p : Fin (n + 1)) (i : Fin n) :
    shifted p i = p.succAbove i := by
  unfold shifted
  by_cases h : i.castSucc < p
  · rw [Fin.succAbove_of_castSucc_lt p i h]
    exact if_pos h
  · rw [Fin.succAbove_of_le_castSucc p i (Fin.not_lt.mp h)]
    exact if_neg h

theorem eq_of_not_succAbove {n : Nat} {p i : Fin (n + 1)} (h : ∀ j, p.succAbove j ≠ i) : i = p := by
  by_contra hne
  obtain ⟨j, hj⟩ := Fin.exists_succAbove_eq hne
  exact h j hj

namespace SimilarityMatrix

def insertColumn (m : SimilarityMatrix) (p : Fin (m.cols + 1)) (column : Fin m.rows → Int32) :
    SimilarityMatrix :=
  ofFn fun r => (p.insertNth (column r) (m.get r) : Fin (m.cols + 1) → Int32)

def insertRow (m : SimilarityMatrix) (p : Fin (m.rows + 1)) (row : Fin m.cols → Int32) :
    SimilarityMatrix :=
  ofFn (p.insertNth row m.get : Fin (m.rows + 1) → Fin m.cols → Int32)

/-- The matrix with 0 in place of the negative entries that were selected. -/
def cleared (m : SimilarityMatrix) (selected : Fin m.rows → Fin m.cols → Bool) :
    SimilarityMatrix :=
  ofFn fun r c => if selected r c ∧ m.get r c < 0 then 0 else m.get r c

variable {m : SimilarityMatrix} {t : Thresholds} {crossCheck : Bool}

theorem padded_insertColumn (p : Fin (m.cols + 1)) {column : Fin m.rows → Int32}
    (hcolumn : ∀ r, column r ≤ 0) :
    Padded id p.succAbove
      (fun r => (p.insertNth (column r) (m.get r) : Fin (m.cols + 1) → Int32)) m.get where
  rows := strictMono_id
  cols := p.strictMono_succAbove
  alike r c := Or.inl (by simp)
  restRow i hi := absurd rfl (hi i)
  restCol j hj i := by
    rw [eq_of_not_succAbove hj, Fin.insertNth_apply_same]
    exact hcolumn i

theorem padded_insertRow (p : Fin (m.rows + 1)) {row : Fin m.cols → Int32}
    (hrow : ∀ c, row c ≤ 0) :
    Padded p.succAbove id
      (p.insertNth row m.get : Fin (m.rows + 1) → Fin m.cols → Int32) m.get where
  rows := p.strictMono_succAbove
  cols := strictMono_id
  alike r c := Or.inl (by simp)
  restRow i hi j := by
    rw [eq_of_not_succAbove hi, Fin.insertNth_apply_same]
    exact hrow j
  restCol j hj := absurd rfl (hj j)

theorem padded_cleared (selected : Fin m.rows → Fin m.cols → Bool) :
    Padded id id (fun r c => if selected r c ∧ m.get r c < 0 then 0 else m.get r c) m.get where
  rows := strictMono_id
  cols := strictMono_id
  alike r c := by
    rw [id, id]
    split
    · rename_i hnegative
      exact Or.inr ⟨Int32.le_refl 0, Int32.le_of_lt hnegative.2⟩
    · exact Or.inl rfl
  restRow i hi := absurd rfl (hi i)
  restCol j hj := absurd rfl (hj j)

variable [ArcCosine]

theorem correspondences_insertColumn (p : Fin (m.cols + 1)) {column : Fin m.rows → Int32}
    (hcolumn : ∀ r, column r ≤ 0) :
    (m.insertColumn p column).correspondences t crossCheck =
      (m.correspondences t crossCheck).map (Correspondence.renumbered id (shifted p)) := by
  refine ((padded_insertColumn p hcolumn).correspondences_eq id (shifted p) (fun _ => rfl)
    (shifted_eq_succAbove p)).trans ?_
  rw [m.ofFn_get]

theorem correspondences_insertRow (p : Fin (m.rows + 1)) {row : Fin m.cols → Int32}
    (hrow : ∀ c, row c ≤ 0) :
    (m.insertRow p row).correspondences t crossCheck =
      (m.correspondences t crossCheck).map (Correspondence.renumbered (shifted p) id) := by
  refine ((padded_insertRow p hrow).correspondences_eq (shifted p) id (shifted_eq_succAbove p)
    (fun _ => rfl)).trans ?_
  rw [m.ofFn_get]

theorem correspondences_cleared (selected : Fin m.rows → Fin m.cols → Bool) :
    (m.cleared selected).correspondences t crossCheck = m.correspondences t crossCheck := by
  refine ((padded_cleared selected).correspondences_eq id id (fun _ => rfl)
    (fun _ => rfl)).trans ?_
  rw [m.ofFn_get]
  exact List.map_id' _

end SimilarityMatrix

/-! ## Inserted features -/

namespace Features

/-- The features of the second image, in their order, are among those of the first. -/
structure Extends {A a : Features} (hA : A.Aligned) (ha : a.Aligned)
    (φ : Fin a.descriptors.size → Fin A.descriptors.size) : Prop where
  increasing : StrictMono φ
  location : ∀ r, A.location hA (φ r) = a.location ha r
  descriptor : ∀ (r : Fin a.descriptors.size) (_ : (φ r).val < A.descriptors.size)
    (_ : r.val < a.descriptors.size), A.descriptors[(φ r).val] = a.descriptors[r.val]

theorem extends_self {a : Features} (ha : a.Aligned) : Extends ha ha id where
  increasing := strictMono_id
  location _ := rfl
  descriptor _ _ _ := rfl

variable {f : Features}

theorem place_le_keypoints (h : f.Aligned) (p : Fin (f.descriptors.size + 1)) :
    p.val ≤ f.keypoints.size :=
  h.symm ▸ Nat.le_of_lt_succ p.isLt

def insert (f : Features) (h : f.Aligned) (p : Fin (f.descriptors.size + 1)) (k : Keypoint)
    (d : Descriptor) : Features where
  keypoints := f.keypoints.insertIdx p k (place_le_keypoints h p)
  descriptors := f.descriptors.insertIdx p d (Nat.le_of_lt_succ p.isLt)

theorem size_insert (h : f.Aligned) (p : Fin (f.descriptors.size + 1)) (k : Keypoint)
    (d : Descriptor) : (f.insert h p k d).descriptors.size = f.descriptors.size + 1 :=
  Array.size_insertIdx (Nat.le_of_lt_succ p.isLt)

theorem aligned_insert (h : f.Aligned) (p : Fin (f.descriptors.size + 1)) (k : Keypoint)
    (d : Descriptor) : (f.insert h p k d).Aligned := by
  unfold Aligned
  rw [size_insert, insert, Array.size_insertIdx, h]

/-- The place of a feature after the insertion. -/
def place (h : f.Aligned) (p : Fin (f.descriptors.size + 1)) (k : Keypoint) (d : Descriptor)
    (r : Fin f.descriptors.size) : Fin (f.insert h p k d).descriptors.size :=
  (p.succAbove r).cast (size_insert h p k d).symm

theorem shifted_eq_place (h : f.Aligned) (p : Fin (f.descriptors.size + 1)) (k : Keypoint)
    (d : Descriptor) (r : Fin f.descriptors.size) : shifted p r = place h p k d r :=
  shifted_eq_succAbove p r

theorem getElem_insertIdx_shifted {α : Type} {xs : Array α} {x : α} {p i j : Nat}
    (hp : p ≤ xs.size) {hi : i < xs.size} {hj : j < (xs.insertIdx p x hp).size}
    (h : shifted p i = j) :
    (xs.insertIdx p x hp)[j] = xs[i] := by
  subst h
  rw [Array.getElem_insertIdx]
  unfold shifted
  by_cases hlt : i < p
  · simp [hlt]
  · have hge : ¬i + 1 < p := by omega
    have hne : i + 1 ≠ p := by omega
    simp [hlt, hge, hne]

theorem extends_insert (h : f.Aligned) (p : Fin (f.descriptors.size + 1)) (k : Keypoint)
    (d : Descriptor) : Extends (aligned_insert h p k d) h (place h p k d) where
  increasing := fun _ _ hlt => p.strictMono_succAbove hlt
  location r :=
    congrArg Keypoint.location
      (getElem_insertIdx_shifted (place_le_keypoints h p) (shifted_eq_place h p k d r))
  descriptor r _ _ :=
    getElem_insertIdx_shifted (Nat.le_of_lt_succ p.isLt) (shifted_eq_place h p k d r)

/-- The only place that is no other feature's is the new one. -/
theorem location_of_not_place (h : f.Aligned) (p : Fin (f.descriptors.size + 1)) (k : Keypoint)
    (d : Descriptor) {i : Fin (f.insert h p k d).descriptors.size}
    (hi : ∀ r, place h p k d r ≠ i) :
    (f.insert h p k d).location (aligned_insert h p k d) i = k.location := by
  have heq : i.cast (size_insert h p k d) = p := by
    refine eq_of_not_succAbove fun r hr => hi r (Fin.ext ?_)
    have hval : (p.succAbove r).val = i.val := congrArg Fin.val hr
    exact hval
  have hval : i.val = p.val := congrArg Fin.val heq
  unfold location insert
  simp only [hval, Array.getElem_insertIdx_self]

theorem exists_keypoint (h : f.Aligned) (i : Fin f.descriptors.size) :
    ∃ q ∈ f.keypoints, f.location h i = q.location :=
  ⟨_, Array.getElem_mem (h.symm ▸ i.isLt), rfl⟩

end Features

section Guided

variable [ArcCosine] {a b a' b' : Features} {ha : a.Aligned} {hb : b.Aligned} {ha' : a'.Aligned}
  {hb' : b'.Aligned} {rejects : Point Float32 → Point Float32 → Bool} {t : Thresholds}
  {crossCheck : Bool}

/-- **Features that a test rejects throughout are padding**, on both sides at once. -/
theorem correspondences_masked_of_extends {φ : Fin a.descriptors.size → Fin a'.descriptors.size}
    {ψ : Fin b.descriptors.size → Fin b'.descriptors.size} (hφ : Features.Extends ha' ha φ)
    (hψ : Features.Extends hb' hb ψ)
    (hrow : ∀ i, (∀ r, φ r ≠ i) → ∀ j, rejects (a'.location ha' i) (b'.location hb' j) = true)
    (hcol : ∀ j, (∀ c, ψ c ≠ j) → ∀ i, rejects (a'.location ha' i) (b'.location hb' j) = true)
    (σ τ : Nat → Nat) (hσ : ∀ r, σ r.val = φ r) (hτ : ∀ c, τ c.val = ψ c) :
    (SimilarityMatrix.masked rejects a' b' ha' hb').correspondences t crossCheck =
      ((SimilarityMatrix.masked rejects a b ha hb).correspondences t crossCheck).map
        (Correspondence.renumbered σ τ) := by
  refine Padded.correspondences_eq ⟨hφ.increasing, hψ.increasing, ?_, ?_, ?_⟩ σ τ hσ hτ
  · intro r c
    have hfirst : a'.descriptors[φ r] = a.descriptors[r] := hφ.descriptor r (φ r).isLt r.isLt
    have hsecond : b'.descriptors[ψ c] = b.descriptors[c] := hψ.descriptor c (ψ c).isLt c.isLt
    left
    rw [hφ.location, hψ.location, hfirst, hsecond]
  · intro i hi j
    rw [if_pos (hrow i hi j)]
    exact Int32.le_refl 0
  · intro j hj i
    rw [if_pos (hcol j hj i)]
    exact Int32.le_refl 0

theorem matchGuided_insert_first {geometry : TwoView} {options : Options} (ha : a.Aligned)
    (p : Fin (a.descriptors.size + 1)) (k : Keypoint) (d : Descriptor)
    (hrejects : ∀ q ∈ b.keypoints,
      (Filter.ofGeometry geometry options.maxError).rejects k.location q.location = true) :
    matchGuided (a.insert ha p k d) b geometry options =
      (matchGuided a b geometry options).map
        (List.map (Correspondence.renumbered (shifted p) id)) := by
  refine matchGuided_eq_map _ fun t crossCheck => ?_
  have ha' := Features.aligned_insert ha p k d
  unfold SimilarityMatrix.ofFeatures
  rw [dif_pos ha, dif_pos ha']
  by_cases hb : b.Aligned
  · rw [dif_pos hb, dif_pos hb]
    refine congrArg Except.ok (correspondences_masked_of_extends (Features.extends_insert ha p k d)
      (Features.extends_self hb) ?_ ?_ (shifted p) id (Features.shifted_eq_place ha p k d)
      fun _ => rfl)
    · intro i hi j
      obtain ⟨q, hq, hlocation⟩ := Features.exists_keypoint hb j
      rw [Features.location_of_not_place ha p k d hi, hlocation]
      exact hrejects q hq
    · intro j hj
      exact absurd rfl (hj j)
  · rw [dif_neg hb, dif_neg hb]
    rfl

theorem matchGuided_insert_second {geometry : TwoView} {options : Options} (hb : b.Aligned)
    (p : Fin (b.descriptors.size + 1)) (k : Keypoint) (d : Descriptor)
    (hrejects : ∀ q ∈ a.keypoints,
      (Filter.ofGeometry geometry options.maxError).rejects q.location k.location = true) :
    matchGuided a (b.insert hb p k d) geometry options =
      (matchGuided a b geometry options).map
        (List.map (Correspondence.renumbered id (shifted p))) := by
  refine matchGuided_eq_map _ fun t crossCheck => ?_
  have hb' := Features.aligned_insert hb p k d
  unfold SimilarityMatrix.ofFeatures
  by_cases ha : a.Aligned
  · rw [dif_pos ha, dif_pos ha, dif_pos hb, dif_pos hb']
    refine congrArg Except.ok (correspondences_masked_of_extends (Features.extends_self ha)
      (Features.extends_insert hb p k d) ?_ ?_ id (shifted p) (fun _ => rfl)
      (Features.shifted_eq_place hb p k d))
    · intro i hi
      exact absurd rfl (hi i)
    · intro j hj i
      obtain ⟨q, hq, hlocation⟩ := Features.exists_keypoint ha i
      rw [Features.location_of_not_place hb p k d hj, hlocation]
      exact hrejects q hq
  · rw [dif_neg ha, dif_neg ha]
    rfl

end Guided

/-- **Features that cannot be matched change nothing but the numbers.** Whatever the thresholds are
and with or without the cross check, a column or a row without a positive entry can be inserted
anywhere, and negative entries can be replaced by 0: the search finds the same pairs in the same
order, under their new numbers. So a feature all of whose pairs the geometry rejects can be inserted
on either side of a guided call without changing its outcome otherwise. -/
theorem inert_features_change_nothing [ArcCosine] :
    (∀ (m : SimilarityMatrix) (t : Thresholds) (crossCheck : Bool),
      (∀ (p : Fin (m.cols + 1)) (column : Fin m.rows → Int32), (∀ r, column r ≤ 0) →
        (m.insertColumn p column).correspondences t crossCheck =
          (m.correspondences t crossCheck).map (Correspondence.renumbered id (shifted p))) ∧
      (∀ (p : Fin (m.rows + 1)) (row : Fin m.cols → Int32), (∀ c, row c ≤ 0) →
        (m.insertRow p row).correspondences t crossCheck =
          (m.correspondences t crossCheck).map (Correspondence.renumbered (shifted p) id)) ∧
      ∀ selected : Fin m.rows → Fin m.cols → Bool,
        (m.cleared selected).correspondences t crossCheck = m.correspondences t crossCheck) ∧
    ∀ (a b : Features) (geometry : TwoView) (options : Options),
      (∀ (ha : a.Aligned) (p : Fin (a.descriptors.size + 1)) (k : Keypoint) (d : Descriptor),
        (∀ q ∈ b.keypoints,
          (Filter.ofGeometry geometry options.maxError).rejects k.location q.location = true) →
        matchGuided (a.insert ha p k d) b geometry options =
          (matchGuided a b geometry options).map
            (List.map (Correspondence.renumbered (shifted p) id))) ∧
      ∀ (hb : b.Aligned) (p : Fin (b.descriptors.size + 1)) (k : Keypoint) (d : Descriptor),
        (∀ q ∈ a.keypoints,
          (Filter.ofGeometry geometry options.maxError).rejects q.location k.location = true) →
        matchGuided a (b.insert hb p k d) geometry options =
          (matchGuided a b geometry options).map
            (List.map (Correspondence.renumbered id (shifted p))) := by
  constructor
  · intro m t crossCheck
    refine ⟨?_, ?_, SimilarityMatrix.correspondences_cleared⟩
    · intro p column hcolumn
      exact SimilarityMatrix.correspondences_insertColumn p hcolumn
    · intro p row hrow
      exact SimilarityMatrix.correspondences_insertRow p hrow
  · intro a b geometry options
    constructor
    · intro ha p k d hrejects
      exact matchGuided_insert_first ha p k d hrejects
    · intro hb p k d hrejects
      exact matchGuided_insert_second hb p k d hrejects

/-- Two rows that choose the columns of their own number. -/
def SimilarityMatrix.diagonal : SimilarityMatrix :=
  ofFn fun (r c : Fin 2) => if r = c then 250000 else -3

/-- A third feature with the descriptor of the first corner, 50 pixels away from both, would make a
tie; the camera that did not move rejects its pairs, and only the numbers change. -/
theorem inert_features_change_nothing_corners :
    (SimilarityMatrix.diagonal.insertColumn (0 : Fin 3) (fun _ => -7)).correspondences
      ⟨nan32, infinity32⟩ true = [⟨0, 1⟩, ⟨1, 2⟩] ∧
    (SimilarityMatrix.diagonal.insertRow (1 : Fin 3) (fun _ => 0)).correspondences
      ⟨nan32, infinity32⟩ true = [⟨0, 0⟩, ⟨2, 1⟩] ∧
    matchGuided (Features.corners.insert Features.aligned_corners (1 : Fin 3) (.upright 50 50)
      ⟨.replicate binCount 45⟩) .corners .still .standard = .ok [⟨0, 0⟩, ⟨2, 1⟩] ∧
    matchGuided .corners (Features.corners.insert Features.aligned_corners (1 : Fin 3)
      (.upright 50 50) ⟨.replicate binCount 45⟩) .still .standard = .ok [⟨0, 0⟩, ⟨1, 2⟩] := by
  obtain ⟨hmatrix, hguided⟩ := inert_features_change_nothing
  obtain ⟨hcolumn, hrow, -⟩ := hmatrix .diagonal ⟨nan32, infinity32⟩ true
  obtain ⟨hfirst, hsecond⟩ := hguided .corners .corners .still .standard
  have hfound : SimilarityMatrix.diagonal.correspondences ⟨nan32, infinity32⟩ true =
      [⟨0, 0⟩, ⟨1, 1⟩] := by decide +kernel
  have hplain : matchGuided .corners .corners .still .standard = .ok [⟨0, 0⟩, ⟨1, 1⟩] := by
    rw [matchGuided_of_valid Options.standard_valid rfl Features.aligned_corners
      Features.aligned_corners]
    exact congrArg Except.ok (by decide +kernel)
  refine ⟨?_, ?_, ?_, ?_⟩
  · rw [hcolumn (0 : Fin 3) (fun _ => -7) (fun _ => by decide), hfound]
    rfl
  · rw [hrow (1 : Fin 3) (fun _ => 0) (fun _ => by decide), hfound]
    rfl
  · rw [hfirst Features.aligned_corners (1 : Fin 3) (.upright 50 50) ⟨.replicate binCount 45⟩
      (by decide +kernel), hplain]
    rfl
  · rw [hsecond Features.aligned_corners (1 : Fin 3) (.upright 50 50) ⟨.replicate binCount 45⟩
      (by decide +kernel), hplain]
    rfl

end FeatureMatching
