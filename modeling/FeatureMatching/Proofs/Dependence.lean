import Mathlib
import FeatureMatching.Proofs.FewerCompetitors

/-!
# What a call depends on

Most of what a caller hands over is not looked at. A guided call reads the descriptors, the
positions of the keypoints, the matrix that the configuration names, and four of the twelve options;
the affine frames, the other matrix, the inliers of an earlier call and the settings of the
estimation are carried along. So two calls that **resemble** each other in what is read have one
outcome, found correspondences and faults alike.

Each input has its own relation here, and each is used where the input enters: the two images when
the matrix is made (`SimilarityMatrix.ofFeatures_congr`), the geometry when the filter is chosen
(`Filter.ofGeometry_congr`), the options in the search. A call sees the geometry through its filter
only, and that is all that `matchGuided_congr` asks of it.
-/

set_option autoImplicit false

namespace FeatureMatching

/-! ## Images -/

/-- Two images with the same descriptors at the same positions. -/
structure Features.Resembles (a a' : Features) : Prop where
  descriptors : a.descriptors = a'.descriptors
  locations : a.keypoints.map Keypoint.location = a'.keypoints.map Keypoint.location

namespace Features.Resembles

variable {a a' b b' : Features}

theorem refl (a : Features) : a.Resembles a := ⟨rfl, rfl⟩

theorem size_keypoints (h : a.Resembles a') : a.keypoints.size = a'.keypoints.size := by
  simpa using congrArg Array.size h.locations

theorem aligned_iff (h : a.Resembles a') : a.Aligned ↔ a'.Aligned := by
  unfold Aligned
  rw [h.size_keypoints, h.descriptors]

theorem location_eq (h : a.Resembles a') (ha : a.Aligned) (ha' : a'.Aligned)
    {i : Fin a.descriptors.size} {i' : Fin a'.descriptors.size} (hi : i.val = i'.val) :
    a.location ha i = a'.location ha' i' := by
  have hlt : i.val < a.keypoints.size := ha.symm ▸ i.isLt
  have hlt' : i.val < a'.keypoints.size := h.size_keypoints ▸ hlt
  have hentry : (a.keypoints.map Keypoint.location)[i.val]? =
      (a'.keypoints.map Keypoint.location)[i.val]? := congrArg (·[i.val]?) h.locations
  simp only [Array.getElem?_map, Array.getElem?_eq_getElem hlt, Array.getElem?_eq_getElem hlt',
    Option.map_some, Option.some.injEq] at hentry
  simpa only [location, ← hi] using hentry

end Features.Resembles

namespace SimilarityMatrix

variable {a a' b b' : Features} (rejects : Point Float32 → Point Float32 → Bool)

theorem masked_congr (h : a.Resembles a') (k : b.Resembles b') (ha : a.Aligned) (ha' : a'.Aligned)
    (hb : b.Aligned) (hb' : b'.Aligned) :
    masked rejects a b ha hb = masked rejects a' b' ha' hb' := by
  obtain ⟨keypoints, descriptors⟩ := a
  obtain ⟨keypoints', descriptors'⟩ := b
  -- With the descriptors identified, the two matrices have one type of index.
  cases h.descriptors
  cases k.descriptors
  unfold masked
  congr 1
  funext i j
  rw [h.location_eq ha ha' rfl, k.location_eq hb hb' rfl]

theorem ofFeatures_congr (h : a.Resembles a') (k : b.Resembles b') :
    ofFeatures rejects a b = ofFeatures rejects a' b' := by
  unfold ofFeatures
  by_cases ha : a.Aligned
  · have ha' := h.aligned_iff.mp ha
    by_cases hb : b.Aligned
    · have hb' := k.aligned_iff.mp hb
      simp only [ha, ha', hb, hb', dite_true]
      rw [masked_congr rejects h k ha ha' hb hb']
    · have hb' := mt k.aligned_iff.mpr hb
      simp only [ha, ha', hb, hb', dite_true, dite_false]
      rw [k.size_keypoints, k.descriptors]
  · have ha' := mt h.aligned_iff.mpr ha
    simp only [ha, ha', dite_false]
    rw [h.size_keypoints, h.descriptors]

end SimilarityMatrix

/-! ## Geometries -/

/-- Two relations of one kind with the matrix of that kind in common. -/
structure TwoView.Resembles (g g' : TwoView) : Prop where
  configuration : g.configuration = g'.configuration
  fundamental : g.configuration.isEpipolar = true → g.fundamental = g'.fundamental
  homography : g.configuration.isHomography = true → g.homography = g'.homography

theorem Filter.ofGeometry_congr {g g' : TwoView} (h : g.Resembles g') (maxError : Float) :
    ofGeometry g maxError = ofGeometry g' maxError := by
  unfold ofGeometry
  rw [← h.configuration]
  by_cases hepipolar : g.configuration.isEpipolar = true
  · rw [if_pos hepipolar, if_pos hepipolar, h.fundamental hepipolar]
  · rw [if_neg hepipolar, if_neg hepipolar]
    by_cases hhomography : g.configuration.isHomography = true
    · rw [if_pos hhomography, if_pos hhomography, h.homography hhomography]
    · rw [if_neg hhomography, if_neg hhomography]

/-! ## Options -/

/-- Two options values that set a search the same limits. -/
structure Options.Resembles (o o' : Options) : Prop where
  maxRatio : o.maxRatio = o'.maxRatio
  maxDistance : o.maxDistance = o'.maxDistance
  crossCheck : o.crossCheck = o'.crossCheck

namespace Options.Resembles

variable {o o' : Options}

theorem refl (o : Options) : o.Resembles o := ⟨rfl, rfl, rfl⟩

theorem thresholds_eq (h : o.Resembles o') : o.thresholds = o'.thresholds := by
  unfold thresholds
  rw [h.maxRatio, h.maxDistance]

end Options.Resembles

/-! ## Calls -/

section Calls

variable [ArcCosine] {o o' : Options} {g g' : TwoView} {a a' b b' : Features}

theorem matchDescriptors_congr (hvalid : o.Valid) (hvalid' : o'.Valid) (h : o.Resembles o')
    (a b : Array Descriptor) : matchDescriptors a b o = matchDescriptors a b o' := by
  rw [matchDescriptors_of_valid hvalid, matchDescriptors_of_valid hvalid', h.thresholds_eq,
    h.crossCheck]

/-- **A geometry enters a guided call through its filter alone**: whether there is a model, and
which pairs of positions it rejects. -/
theorem matchGuided_congr (hvalid : o.Valid) (hvalid' : o'.Valid) (h : o.Resembles o')
    (hsupported : (Filter.ofGeometry g o.maxError).isSupported =
      (Filter.ofGeometry g' o'.maxError).isSupported)
    (hrejects : (Filter.ofGeometry g o.maxError).rejects =
      (Filter.ofGeometry g' o'.maxError).rejects)
    (ha : a.Resembles a') (hb : b.Resembles b') :
    matchGuided a b g o = matchGuided a' b' g' o' := by
  cases hmodel : (Filter.ofGeometry g o.maxError).isSupported with
  | true =>
    rw [matchGuided_of_supported hvalid hmodel,
      matchGuided_of_supported hvalid' (hsupported ▸ hmodel), hrejects,
      SimilarityMatrix.ofFeatures_congr _ ha hb, h.thresholds_eq, h.crossCheck]
  | false =>
    rw [matchGuided_of_unsupported hvalid hmodel,
      matchGuided_of_unsupported hvalid' (hsupported ▸ hmodel)]

end Calls

/-- **What the two calls depend on.** With valid options on both sides, matching by descriptors
alone has one outcome for all options that agree on the ratio, the distance and the cross check.
Guided matching has one outcome if they agree on the geometric error too, the images on their
descriptors and positions, and the geometries on the configuration and on the matrix that it names.
-/
theorem outcome_of_what_is_read [ArcCosine] :
    ∀ o o' : Options, o.Valid → o'.Valid → o.maxRatio = o'.maxRatio →
      o.maxDistance = o'.maxDistance → o.crossCheck = o'.crossCheck →
      (∀ a b : Array Descriptor, matchDescriptors a b o = matchDescriptors a b o') ∧
      (o.maxError = o'.maxError → ∀ g g' : TwoView, g.configuration = g'.configuration →
        (g.configuration.isEpipolar = true → g.fundamental = g'.fundamental) →
        (g.configuration.isHomography = true → g.homography = g'.homography) →
        ∀ a a' b b' : Features,
          a.descriptors = a'.descriptors →
          a.keypoints.map Keypoint.location = a'.keypoints.map Keypoint.location →
          b.descriptors = b'.descriptors →
          b.keypoints.map Keypoint.location = b'.keypoints.map Keypoint.location →
          matchGuided a b g o = matchGuided a' b' g' o') := by
  intro o o' hvalid hvalid' hratio hdistance hcross
  have h : o.Resembles o' := ⟨hratio, hdistance, hcross⟩
  constructor
  · intro a b
    exact matchDescriptors_congr hvalid hvalid' h a b
  · intro herror g g' hconfiguration hfundamental hhomography a a' b b' had hak hbd hbk
    have hfilter : Filter.ofGeometry g o.maxError = Filter.ofGeometry g' o'.maxError := by
      rw [← herror]
      exact Filter.ofGeometry_congr ⟨hconfiguration, hfundamental, hhomography⟩ _
    exact matchGuided_congr hvalid hvalid' h (by rw [hfilter]) (by rw [hfilter]) ⟨had, hak⟩
      ⟨hbd, hbk⟩

/-- The corners with frames that are not even invertible. -/
def Features.flatCorners : Features :=
  { Features.corners with
    keypoints := Features.corners.keypoints.map fun k => { k with a11 := 0, a12 := 3 } }

/-- The camera that did not move, with a vanishing fundamental matrix and an inlier that no image
has. -/
def TwoView.stillRecalled : TwoView :=
  { TwoView.still with
    fundamental := ⟨0, 0, 0, 0, 0, 0, 0, 0, 0⟩
    inliers := [⟨7, 9⟩] }

/-- The standard limits with other settings for the estimation. -/
def Options.patient : Options :=
  { Options.standard with
    confidence := 1
    minNumTrials := 0
    maxNumTrials := 1
    minInlierRatio := 0
    minNumInliers := 0
    multipleModels := true
    guidedMatching := true }

/-- Frames, the matrix that the configuration does not name, old inliers and the settings of the
estimation make no difference to the two corners. -/
theorem outcome_of_what_is_read_corners :
    matchDescriptors Features.corners.descriptors Features.corners.descriptors .patient =
      .ok [⟨0, 0⟩, ⟨1, 1⟩] ∧
    matchGuided .flatCorners .corners .stillRecalled .patient = .ok [⟨0, 0⟩, ⟨1, 1⟩] := by
  have hpatient : Options.patient.Valid := by decide +kernel
  obtain ⟨hplain, hguided⟩ := outcome_of_what_is_read .standard .patient Options.standard_valid
    hpatient rfl rfl rfl
  constructor
  · rw [← hplain, matchDescriptors_of_valid Options.standard_valid]
    exact congrArg Except.ok (by decide +kernel)
  · rw [← hguided rfl .still .stillRecalled rfl (fun h => Bool.noConfusion h) (fun _ => rfl)
      .corners .flatCorners .corners .corners rfl (by decide +kernel) rfl rfl,
      matchGuided_of_valid Options.standard_valid rfl Features.aligned_corners
        Features.aligned_corners]
    exact congrArg Except.ok (by decide +kernel)

end FeatureMatching
