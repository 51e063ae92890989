import Mathlib
import FeatureMatching.Proofs.FewerCompetitors

/-!
# A rejected pair is never matched

Masking does not remove a pair from the search, it only makes the pair's entry zero, which is also
what two orthogonal descriptors have. That is enough: whatever the thresholds are, a row and a
column choose positive entries only (`Thresholds.Accepts.positive`), so every pair that is found has
an entry that was not masked (`SimilarityMatrix.admits_of_mem`).

What is masked is up to the filter, which compares a residual with the square of the pixel
threshold. A pair without a residual, such as one whose lines vanish, counts as infinitely far and
should fail every threshold. It does as long as the square is finite. From `2 ^ 512` pixels on the
square is infinite too, an infinite residual is not above it, and the pair passes
(`degenerate_rejected_iff`).
-/

set_option autoImplicit false

namespace FeatureMatching

open Numeric

/-! ## Pairs that may be matched -/

/-- A pair of features that a test does not reject and whose descriptors have something in
common. -/
structure Features.Admits (a b : Features) (ha : a.Aligned) (hb : b.Aligned)
    (rejects : Point Float32 → Point Float32 → Bool) (c : Correspondence) : Prop where
  first : c.first < a.descriptors.size
  second : c.second < b.descriptors.size
  kept : rejects (a.location ha ⟨c.first, first⟩) (b.location hb ⟨c.second, second⟩) = false
  positive : 0 < a.descriptors[c.first].dot b.descriptors[c.second]

section Masked

variable [ArcCosine] {rejects : Point Float32 → Point Float32 → Bool} {a b : Features}
  {ha : a.Aligned} {hb : b.Aligned} {t : Thresholds} {crossCheck : Bool}

/-- **Every pair that a search of the masked matrix finds may be matched**, for every pair of
thresholds. Neither of the two angle tests is used. -/
theorem SimilarityMatrix.admits_of_mem {c : Correspondence}
    (h : c ∈ (masked rejects a b ha hb).correspondences t crossCheck) :
    a.Admits b ha hb rejects c := by
  have hi : c.first < a.descriptors.size := (inside_of_mem_correspondences h).1
  have hj : c.second < b.descriptors.size := (inside_of_mem_correspondences h).2
  obtain ⟨hrow, -⟩ := (mem_correspondences_ofFn (r := ⟨c.first, hi⟩) (c := ⟨c.second, hj⟩)).mp h
  -- The row's choice is a positive entry, and a masked one would be zero.
  have hpositive := hrow.positive
  split at hpositive
  · exact absurd hpositive Int32.lt_irrefl
  · rename_i hkept
    exact ⟨hi, hj, Bool.eq_false_iff.mpr hkept, hpositive⟩

theorem SimilarityMatrix.correspondences_of_always (halways : ∀ p q, rejects p q = true) :
    (masked rejects a b ha hb).correspondences t crossCheck = [] := by
  rw [List.eq_nil_iff_forall_not_mem]
  intro c hc
  have hkept := (admits_of_mem hc).kept
  rw [halways] at hkept
  cases hkept

end Masked

/-! ## The residual of a match -/

namespace Filter

variable {geometry : TwoView} {maxError : Float} {p q : Point Float32}

theorem exists_residual (hsupported : (ofGeometry geometry maxError).isSupported = true) :
    ∃ r, (ofGeometry geometry maxError).residual? p q = some r := by
  cases hfilter : ofGeometry geometry maxError with
  | unsupported => rw [hfilter] at hsupported; cases hsupported
  | epipolar f _ | homography h _ => exact ⟨_, rfl⟩

/-- A pair that is not rejected has a residual within the threshold. -/
theorem exists_residual_of_kept (hsupported : (ofGeometry geometry maxError).isSupported = true)
    (hkept : (ofGeometry geometry maxError).rejects p q = false) :
    ∃ r, (ofGeometry geometry maxError).residual? p q = some r ∧ ¬maxError * maxError < r := by
  obtain ⟨r, hr⟩ := exists_residual (p := p) (q := q) hsupported
  rw [rejects_ofGeometry, hr, exceeds_some, decide_eq_false_iff_not] at hkept
  exact ⟨r, hr, hkept⟩

/-- **An infinite residual is rejected if the threshold is not too large to be squared.** -/
theorem rejects_iff_of_infinite (hpos : 0 < maxError)
    (h : (ofGeometry geometry maxError).residual? p q = some infinity64) :
    (ofGeometry geometry maxError).rejects p q = true ↔ maxError < squareOverflow64 := by
  rw [rejects_ofGeometry, h, exceeds_some, decide_eq_true_eq, square_lt_infinity64_iff hpos]

end Filter

/-! ## The two results -/

/-- **A rejected pair is never matched.** Guided matching with valid options returns pairs of
features whose descriptors have a positive dot product and whose residual is not above the square of
the threshold. The same holds of every test of positions and of all thresholds, and a test that
rejects everything leaves nothing to find. -/
theorem rejected_never_matched [ArcCosine] :
    (∀ options : Options, options.Valid → ∀ geometry : TwoView,
      (geometry.configuration.isEpipolar || geometry.configuration.isHomography) = true →
      ∀ (a b : Features) (ha : a.Aligned) (hb : b.Aligned),
      ∃ found, matchGuided a b geometry options = .ok found ∧
        ∀ c ∈ found, ∃ (hi : c.first < a.descriptors.size) (hj : c.second < b.descriptors.size),
          0 < a.descriptors[c.first].dot b.descriptors[c.second] ∧
          ∃ r, (Filter.ofGeometry geometry options.maxError).residual?
              (a.location ha ⟨c.first, hi⟩) (b.location hb ⟨c.second, hj⟩) = some r ∧
            ¬options.maxError * options.maxError < r) ∧
    (∀ (rejects : Point Float32 → Point Float32 → Bool) (a b : Features) (ha : a.Aligned)
      (hb : b.Aligned) (t : Thresholds) (crossCheck : Bool),
      ∀ c ∈ (SimilarityMatrix.masked rejects a b ha hb).correspondences t crossCheck,
        ∃ (hi : c.first < a.descriptors.size) (hj : c.second < b.descriptors.size),
          rejects (a.location ha ⟨c.first, hi⟩) (b.location hb ⟨c.second, hj⟩) = false) ∧
    (∀ rejects : Point Float32 → Point Float32 → Bool, (∀ p q, rejects p q = true) →
      ∀ (a b : Features) (ha : a.Aligned) (hb : b.Aligned) (t : Thresholds) (crossCheck : Bool),
        (SimilarityMatrix.masked rejects a b ha hb).correspondences t crossCheck = []) := by
  refine ⟨fun options hvalid geometry hmodel a b ha hb => ?_,
    fun rejects a b ha hb t crossCheck c hc => ?_,
    fun rejects halways a b ha hb t crossCheck =>
      SimilarityMatrix.correspondences_of_always halways⟩
  · have hsupported := (Filter.isSupported_ofGeometry geometry options.maxError).trans hmodel
    refine ⟨_, matchGuided_of_valid hvalid hsupported ha hb, fun c hc => ?_⟩
    have hadmits := SimilarityMatrix.admits_of_mem hc
    exact ⟨hadmits.first, hadmits.second, hadmits.positive,
      Filter.exists_residual_of_kept hsupported hadmits.kept⟩
  · have hadmits := SimilarityMatrix.admits_of_mem hc
    exact ⟨hadmits.first, hadmits.second, hadmits.kept⟩

/-- The second corner is found under a camera that did not move, within the threshold. With a NaN
ratio and no limit on the angle, a test of the first position rules out the first corner and a test
that rejects everything rules out both. -/
theorem rejected_never_matched_corners :
    (∃ found, matchGuided .corners .corners .still .standard = .ok found ∧ ⟨1, 1⟩ ∈ found ∧
      ∃ r, (Filter.ofGeometry .still Options.standard.maxError).residual? ⟨100, 0⟩ ⟨100, 0⟩ =
          some r ∧ ¬Options.standard.maxError * Options.standard.maxError < r) ∧
    ⟨0, 0⟩ ∉ (SimilarityMatrix.masked (fun p _ => decide (p.x < 50)) .corners .corners
      Features.aligned_corners Features.aligned_corners).correspondences ⟨nan32, infinity32⟩ false ∧
    (SimilarityMatrix.masked (fun _ _ => true) .corners .corners Features.aligned_corners
      Features.aligned_corners).correspondences ⟨nan32, infinity32⟩ true = [] := by
  have hvalid : Options.standard.Valid := Options.standard_valid
  obtain ⟨hguided, htest, halways⟩ := rejected_never_matched
  refine ⟨?_, fun hfirst => ?_, halways _ (fun _ _ => rfl) _ _ _ _ _ _⟩
  · obtain ⟨found, hfound, hwithin⟩ := hguided _ hvalid .still rfl _ _ Features.aligned_corners
      Features.aligned_corners
    have hsecond : ⟨1, 1⟩ ∈ found := by
      rw [eq_of_matchGuided hvalid rfl Features.aligned_corners Features.aligned_corners hfound]
      decide +kernel
    obtain ⟨_, _, _, hresidual⟩ := hwithin _ hsecond
    exact ⟨found, hfound, hsecond, hresidual⟩
  · obtain ⟨_, _, hkept⟩ := htest _ _ _ _ _ _ _ _ hfirst
    exact absurd hkept (show ¬decide ((0 : Float32) < 50) = false by decide +kernel)

/-- **Degenerate pairs fail every threshold that can be squared**, and no other one. Below `2 ^ 512`
pixels the filter rejects each pair whose residual is infinite, so guided matching never returns it;
from there on it rejects none of them. -/
theorem degenerate_rejected_iff [ArcCosine] (options : Options) (hvalid : options.Valid) :
    (∀ (geometry : TwoView) (p q : Point Float32),
      (Filter.ofGeometry geometry options.maxError).residual? p q = some infinity64 →
      ((Filter.ofGeometry geometry options.maxError).rejects p q = true ↔
        options.maxError < squareOverflow64)) ∧
    (options.maxError < squareOverflow64 → ∀ geometry : TwoView,
      (geometry.configuration.isEpipolar || geometry.configuration.isHomography) = true →
      ∀ (a b : Features) (ha : a.Aligned) (hb : b.Aligned),
      ∃ found, matchGuided a b geometry options = .ok found ∧
        ∀ c ∈ found, ∃ (hi : c.first < a.descriptors.size) (hj : c.second < b.descriptors.size),
          (Filter.ofGeometry geometry options.maxError).residual?
            (a.location ha ⟨c.first, hi⟩) (b.location hb ⟨c.second, hj⟩) ≠ some infinity64) := by
  have hpos : 0 < options.maxError := (Options.valid_iff_inRange.mp hvalid).maxError
  refine ⟨fun geometry p q => Filter.rejects_iff_of_infinite hpos, ?_⟩
  intro hlimit geometry hmodel a b ha hb
  have hsupported := (Filter.isSupported_ofGeometry geometry options.maxError).trans hmodel
  refine ⟨_, matchGuided_of_valid hvalid hsupported ha hb, fun c hc => ?_⟩
  have hadmits := SimilarityMatrix.admits_of_mem hc
  refine ⟨hadmits.first, hadmits.second, fun hinfinite => ?_⟩
  have hrejects := (Filter.rejects_iff_of_infinite hpos hinfinite).mpr hlimit
  rw [hadmits.kept] at hrejects
  cases hrejects

/-- A fundamental matrix under which every line vanishes. -/
def TwoView.vanishing : TwoView :=
  { TwoView.unknown with
    configuration := .uncalibrated
    fundamental := ⟨0, 0, 0, 0, 0, 0, 0, 0, 0⟩ }

/-- Nothing is matched under the vanishing lines. -/
theorem degenerate_rejected_standard :
    (Filter.ofGeometry .vanishing Options.standard.maxError).rejects ⟨0, 0⟩ ⟨0, 0⟩ = true ∧
    ∃ found, matchGuided .corners .corners .vanishing .standard = .ok found ∧ ⟨0, 0⟩ ∉ found := by
  have hvalid : Options.standard.Valid := Options.standard_valid
  have hlimit : Options.standard.maxError < squareOverflow64 := by decide +kernel
  obtain ⟨hrejects, hguided⟩ := degenerate_rejected_iff _ hvalid
  obtain ⟨found, hfound, hfinite⟩ := hguided hlimit .vanishing rfl _ _ Features.aligned_corners
    Features.aligned_corners
  have hinfinite : (Filter.ofGeometry .vanishing Options.standard.maxError).residual? ⟨0, 0⟩
      ⟨0, 0⟩ = some infinity64 := by decide +kernel
  refine ⟨(hrejects .vanishing _ _ hinfinite).mpr hlimit, found, hfound, fun hmem => ?_⟩
  obtain ⟨_, _, hne⟩ := hfinite _ hmem
  exact hne hinfinite

/-- A threshold that is finite and whose square is not. -/
def Options.boundless : Options := { Options.standard with maxError := 1e200 }

/-- With such a threshold a pair without a residual is matched. -/
theorem degenerate_matched_boundless :
    Options.boundless.Valid ∧
    (Filter.ofGeometry .vanishing Options.boundless.maxError).residual? ⟨0, 0⟩ ⟨0, 0⟩ =
      some infinity64 ∧
    (Filter.ofGeometry .vanishing Options.boundless.maxError).rejects ⟨0, 0⟩ ⟨0, 0⟩ = false ∧
    matchGuided .corners .corners .vanishing .boundless = .ok [⟨0, 0⟩, ⟨1, 1⟩] := by
  have hvalid : Options.boundless.Valid := by decide +kernel
  refine ⟨hvalid, by decide +kernel, by decide +kernel, ?_⟩
  rw [matchGuided_of_valid hvalid rfl Features.aligned_corners Features.aligned_corners]
  exact congrArg Except.ok (by decide +kernel)

end FeatureMatching
