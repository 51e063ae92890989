import Mathlib
import FeatureMatching.Proofs.Exchange
import FeatureMatching.Proofs.InlierHistory

/-!
# How many matches a call returns

What bounds the number of matches is the number of features: a row is matched once, and with the
cross check so is a column (`SimilarityMatrix.length_correspondences_le_rows`,
`length_correspondences_le_cols`). Nothing else does. The options carry a largest number of matches;
it is checked to be positive and then never read, so that options which differ in it alone give the
same results (`plainSearch_withLimit`, `guidedSearch_withLimit`), and there is no limit that a call
with enough features does not exceed (`exists_found_beyond`).
-/

set_option autoImplicit false

namespace FeatureMatching

open Numeric

/-! ## The pairs of a matrix -/

namespace SimilarityMatrix

variable [ArcCosine] (m : SimilarityMatrix) (t : Thresholds) (crossCheck : Bool)

theorem nodup_firsts : ((m.correspondences t crossCheck).map Correspondence.first).Nodup :=
  List.Pairwise.map _ (fun _ _ hlt => hlt.ne) (m.correspondences_increasing t crossCheck)

theorem length_correspondences_le_rows : (m.correspondences t crossCheck).length ≤ m.rows := by
  have hinside : ((m.correspondences t crossCheck).map Correspondence.first) ⊆
      List.range m.rows := by
    intro r hr
    obtain ⟨p, hp, rfl⟩ := List.mem_map.mp hr
    exact List.mem_range.mpr (inside_of_mem_correspondences hp).1
  have hle := (m.nodup_firsts t crossCheck).length_le_of_subset hinside
  rwa [List.length_map, List.length_range] at hle

theorem length_correspondences_le_cols : (m.correspondences t true).length ≤ m.cols := by
  have hnodup : ((m.correspondences t true).map Correspondence.second).Nodup :=
    List.Pairwise.map _ (fun _ _ hne => hne) (m.second_ne_of_crossCheck t)
  have hinside : ((m.correspondences t true).map Correspondence.second) ⊆ List.range m.cols := by
    intro c hc
    obtain ⟨p, hp, rfl⟩ := List.mem_map.mp hc
    exact List.mem_range.mpr (inside_of_mem_correspondences hp).2
  have hle := hnodup.length_le_of_subset hinside
  rwa [List.length_map, List.length_range] at hle

variable {m t crossCheck}

theorem rows_le_length_of_matched
    (h : ∀ r : Fin m.rows, ∃ c, ⟨r, c⟩ ∈ m.correspondences t crossCheck) :
    m.rows ≤ (m.correspondences t crossCheck).length := by
  have hinside : List.range m.rows ⊆
      (m.correspondences t crossCheck).map Correspondence.first := by
    intro r hr
    obtain ⟨c, hc⟩ := h ⟨r, List.mem_range.mp hr⟩
    exact List.mem_map.mpr ⟨_, hc, rfl⟩
  have hle := List.nodup_range.length_le_of_subset hinside
  rwa [List.length_map, List.length_range] at hle

end SimilarityMatrix

/-! ## What a call may return -/

/-- No more matches than features of the first image, and with the cross check no more than features
of the second. -/
structure Bounded (firsts seconds : Nat) (crossCheck : Bool) (found : List Correspondence) :
    Prop where
  first : found.length ≤ firsts
  second : crossCheck = true → found.length ≤ seconds

theorem SimilarityMatrix.bounded [ArcCosine] (m : SimilarityMatrix) (t : Thresholds)
    (crossCheck : Bool) :
    Bounded m.rows m.cols crossCheck (m.correspondences t crossCheck) where
  first := m.length_correspondences_le_rows t crossCheck
  second := by
    rintro rfl
    exact m.length_correspondences_le_cols t

/-- The images have so few features that the options' limit cannot be exceeded. -/
def Options.HasRoom (o : Options) (firsts seconds : Nat) : Prop :=
  firsts ≤ o.maxNumMatches ∨ o.crossCheck = true ∧ seconds ≤ o.maxNumMatches

section Bounds

variable {o : Options}

theorem Bounded.length_le_limit {firsts seconds : Nat} {found : List Correspondence}
    (h : Bounded firsts seconds o.crossCheck found) (hroom : o.HasRoom firsts seconds) :
    found.length ≤ o.maxNumMatches := by
  rcases hroom with hfirst | ⟨hcheck, hsecond⟩
  · exact h.first.trans hfirst
  · exact (h.second hcheck).trans hsecond

variable [ArcCosine]

theorem bounded_of_matchDescriptors {a b : Array Descriptor} {found : List Correspondence}
    (h : matchDescriptors a b o = .ok found) : Bounded a.size b.size o.crossCheck found := by
  cases hviolation : o.violation? with
  | some violation =>
    rw [matchDescriptors_of_violation hviolation] at h
    cases h
  | none =>
    rw [eq_of_matchDescriptors hviolation h]
    exact (SimilarityMatrix.ofDescriptors a b).bounded o.thresholds o.crossCheck

variable {a b : Features} {geometry : TwoView}

theorem bounded_of_guidedSearch {s : Search} (h : guidedSearch a b geometry o = .ok (some s)) :
    Bounded a.descriptors.size b.descriptors.size o.crossCheck s.found := by
  have houtcome := guidedSearch_outcome a b geometry o
  rw [h] at houtcome
  cases houtcome with
  | searched valid supported ha hb =>
    exact (SimilarityMatrix.masked _ a b ha hb).bounded o.thresholds o.crossCheck

theorem bounded_of_matchGuided {found : List Correspondence}
    (h : matchGuided a b geometry o = .ok found) :
    Bounded a.descriptors.size b.descriptors.size o.crossCheck found := by
  unfold matchGuided at h
  cases houtcome : guidedSearch a b geometry o with
  | error fault => rw [houtcome] at h; cases h
  | ok searched =>
    rw [houtcome] at h
    cases searched with
    -- Without a model nothing is found.
    | none => cases h; exact ⟨Nat.zero_le _, fun _ => Nat.zero_le _⟩
    | some s => cases h; exact bounded_of_guidedSearch houtcome

theorem bounded_of_refineInliers
    (hmodel : (geometry.configuration.isEpipolar || geometry.configuration.isHomography) = true)
    (h : (refineInliers a b geometry o).1 = .ok ()) :
    Bounded a.descriptors.size b.descriptors.size o.crossCheck
      (refineInliers a b geometry o).2.inliers := by
  rw [refineInliers_fst] at h
  cases hguided : matchGuided a b geometry o with
  | error fault => rw [hguided] at h; cases h
  | ok found =>
    have hrefinement : refinement? a b geometry o = some found := by
      rw [refinement?, if_pos hmodel, hguided]
      rfl
    rw [refineInliers_snd, hrefinement]
    exact bounded_of_matchGuided hguided

end Bounds

/-! ## The number that nobody reads -/

section Limit

variable {o : Options} {n : Nat}

theorem Options.Valid.withMaxNumMatches (h : o.Valid) (hn : 0 < n) :
    { o with maxNumMatches := n }.Valid :=
  have hrange := Options.valid_iff_inRange.mp h
  Options.valid_iff_inRange.mpr { hrange with maxNumMatches := hn }

theorem plainSearch_withLimit [ArcCosine] (h : o.Valid) (hn : 0 < n) (a b : Array Descriptor) :
    plainSearch a b { o with maxNumMatches := n } = plainSearch a b o := by
  unfold plainSearch
  rw [(Options.validate_eq_ok_iff _).mpr h,
    (Options.validate_eq_ok_iff _).mpr (h.withMaxNumMatches hn)]
  rfl

theorem guidedSearch_withLimit [ArcCosine] (h : o.Valid) (hn : 0 < n) (a b : Features)
    (geometry : TwoView) :
    guidedSearch a b geometry { o with maxNumMatches := n } = guidedSearch a b geometry o := by
  unfold guidedSearch
  rw [(Options.validate_eq_ok_iff _).mpr h,
    (Options.validate_eq_ok_iff _).mpr (h.withMaxNumMatches hn)]
  rfl

/-! ### Beyond every limit -/

/-- Copies of one feature. -/
def Features.copies (count : Nat) : Features where
  keypoints := .replicate count .origin
  descriptors := .replicate count (.ofCell 0)

theorem Features.aligned_copies (count : Nat) : (Features.copies count).Aligned := by
  simp [Aligned, copies]

@[simp] theorem Features.size_copies (count : Nat) :
    (Features.copies count).descriptors.size = count := by
  simp [copies]

theorem Features.location_copies {count : Nat} (h : (Features.copies count).Aligned)
    (i : Fin (Features.copies count).descriptors.size) :
    (Features.copies count).location h i = Keypoint.origin.location := by
  simp [location, copies]

theorem get_ofDescriptors_copies_pos {k l : Nat} (r c) :
    0 < (SimilarityMatrix.ofDescriptors (Features.copies k).descriptors
      (Features.copies l).descriptors).get r c := by
  have hcell : 0 < (Descriptor.ofCell 0).dot (.ofCell 0) := by decide +kernel
  refine hcell.trans_eq (Eq.trans ?_ (SimilarityMatrix.get_ofFn _ r c).symm)
  exact (congrArg₂ Descriptor.dot (Array.getElem_replicate _) (Array.getElem_replicate _)).symm

/-- The copies are all in one place, so a camera that did not move rules none of them out. -/
theorem masked_copies {k l : Nat} :
    SimilarityMatrix.masked (Filter.ofGeometry .still Options.standard.maxError).rejects
        (.copies k) (.copies l) (Features.aligned_copies k) (Features.aligned_copies l) =
      SimilarityMatrix.ofDescriptors (Features.copies k).descriptors
        (Features.copies l).descriptors := by
  have hkept : (Filter.ofGeometry .still Options.standard.maxError).rejects
      Keypoint.origin.location Keypoint.origin.location = false := by decide +kernel
  unfold SimilarityMatrix.masked SimilarityMatrix.ofDescriptors
  simp only [Features.location_copies, hkept, Bool.false_eq_true, if_false]

/-- Thresholds that no angle fails. -/
def Thresholds.boundless : Thresholds := ⟨infinity32, infinity32⟩

/-- Options that ask for a number of matches and let every row match on its own, at any angle. -/
def Options.limitedTo (limit : Nat) : Options :=
  { Options.standard with
    maxRatio := infinity32
    maxDistance := infinity32
    crossCheck := false
    maxNumMatches := limit }

theorem Options.limitedTo_valid {limit : Nat} (h : 0 < limit) : (limitedTo limit).Valid := by
  have hone : (limitedTo 1).Valid := by decide +kernel
  exact hone.withMaxNumMatches h

section Beyond

variable [ArcCosine] [ArcCosine.Lawful]

/-- A column of positive entries is matched from top to bottom. -/
theorem rows_le_length_of_column {m : SimilarityMatrix} (hcols : m.cols = 1)
    (hentry : ∀ r c, 0 < m.get r c) :
    m.rows ≤ (m.correspondences .boundless false).length := by
  refine SimilarityMatrix.rows_le_length_of_matched fun r => ?_
  have hone : Subsingleton (Fin m.cols) := hcols ▸ inferInstance
  have hc : 0 < m.cols := hcols ▸ Nat.one_pos
  refine ⟨0, SimilarityMatrix.mem_correspondences_iff (c := ⟨0, hc⟩).mpr ⟨?_, by simp⟩⟩
  have hratio : ¬infinity32 ≤ -infinity32 := by decide +kernel
  exact {
    positive := hentry _ _
    leads := ⟨fun j => Int32.le_of_eq (congrArg (m.get r) (Subsingleton.elim j _)),
      fun j hj => absurd (Subsingleton.elim j _) hj.ne⟩
    near := fun hfar => absurd (lt_iff_position32.mp hfar).2 (position32_angle_lt _).not_gt
    clear := not_ratio_mul_angle_le (by decide +kernel) hratio _ _ }

theorem lt_length_copies (n : Nat) :
    n < ((SimilarityMatrix.ofDescriptors (Features.copies (n + 1)).descriptors
      (Features.copies 1).descriptors).correspondences .boundless false).length := by
  have hle := rows_le_length_of_column (Features.size_copies 1)
    (get_ofDescriptors_copies_pos (k := n + 1) (l := 1))
  rw [show SimilarityMatrix.rows _ = n + 1 from Features.size_copies (n + 1)] at hle
  exact hle

/-- **Every limit is exceeded**, by each of the three calls and by inputs with one feature more. -/
theorem exists_found_beyond (hn : 0 < n) :
    (∃ found, matchDescriptors (Features.copies (n + 1)).descriptors
      (Features.copies 1).descriptors (.limitedTo n) = .ok found ∧ n < found.length) ∧
    (∃ found, matchGuided (.copies (n + 1)) (.copies 1) .still (.limitedTo n) = .ok found ∧
      n < found.length) ∧
    n < (refineInliers (.copies (n + 1)) (.copies 1) .still (.limitedTo n)).2.inliers.length := by
  have hvalid := Options.limitedTo_valid hn
  have hguided : matchGuided (.copies (n + 1)) (.copies 1) .still (.limitedTo n) = .ok
      ((SimilarityMatrix.ofDescriptors (Features.copies (n + 1)).descriptors
        (Features.copies 1).descriptors).correspondences .boundless false) := by
    rw [matchGuided_of_valid hvalid rfl (Features.aligned_copies _) (Features.aligned_copies _),
      ← masked_copies]
    rfl
  refine ⟨⟨_, matchDescriptors_of_valid hvalid _ _, lt_length_copies n⟩,
    ⟨_, hguided, lt_length_copies n⟩, ?_⟩
  rw [refineInliers_snd, refinement?, hguided]
  exact lt_length_copies n

end Beyond

end Limit

/-- **The number of matches is bounded by the number of features and by nothing else.** Every call
returns at most as many matches as the first image has features, and with the cross check at most as
many as the second has; that keeps the limit of the options for images with so few features. The
limit itself does not change the outcome of a call, and each limit is exceeded by the plain search,
by the guided one and by the inliers that a refinement leaves. -/
theorem found_bounded_by_features_only [ArcCosine] [ArcCosine.Lawful] (o : Options)
    (hvalid : o.Valid) :
    (∀ a b : Array Descriptor, ∃ found, matchDescriptors a b o = .ok found ∧
      Bounded a.size b.size o.crossCheck found ∧
      (o.HasRoom a.size b.size → found.length ≤ o.maxNumMatches)) ∧
    (∀ (a b : Features) (geometry : TwoView),
      (∀ found, matchGuided a b geometry o = .ok found →
        Bounded a.descriptors.size b.descriptors.size o.crossCheck found ∧
        (o.HasRoom a.descriptors.size b.descriptors.size → found.length ≤ o.maxNumMatches)) ∧
      ((geometry.configuration.isEpipolar || geometry.configuration.isHomography) = true →
        (refineInliers a b geometry o).1 = .ok () →
        Bounded a.descriptors.size b.descriptors.size o.crossCheck
          (refineInliers a b geometry o).2.inliers ∧
        (o.HasRoom a.descriptors.size b.descriptors.size →
          (refineInliers a b geometry o).2.inliers.length ≤ o.maxNumMatches))) ∧
    (∀ n, 0 < n →
      (∀ a b, matchDescriptors a b { o with maxNumMatches := n } = matchDescriptors a b o) ∧
      ∀ a b geometry,
        matchGuided a b geometry { o with maxNumMatches := n } = matchGuided a b geometry o ∧
        refineInliers a b geometry { o with maxNumMatches := n } = refineInliers a b geometry o) ∧
    ∃ (o' : Options) (a b : Features), o'.Valid ∧ o'.maxNumMatches = o.maxNumMatches ∧
      (∃ found, matchDescriptors a.descriptors b.descriptors o' = .ok found ∧
        o'.maxNumMatches < found.length) ∧
      ∃ geometry : TwoView,
        (∃ found, matchGuided a b geometry o' = .ok found ∧ o'.maxNumMatches < found.length) ∧
        (refineInliers a b geometry o').1 = .ok () ∧
        o'.maxNumMatches < (refineInliers a b geometry o').2.inliers.length := by
  refine ⟨fun a b => ?_, fun a b geometry => ⟨fun found hfound => ?_, fun hmodel hok => ?_⟩,
    fun n hn => ⟨fun a b => ?_, fun a b geometry => ⟨?_, ?_⟩⟩, ?_⟩
  · have hfound := matchDescriptors_of_valid hvalid a b
    have hbounded := bounded_of_matchDescriptors hfound
    exact ⟨_, hfound, hbounded, hbounded.length_le_limit⟩
  · have hbounded := bounded_of_matchGuided hfound
    exact ⟨hbounded, hbounded.length_le_limit⟩
  · have hbounded := bounded_of_refineInliers hmodel hok
    exact ⟨hbounded, hbounded.length_le_limit⟩
  · unfold matchDescriptors
    rw [plainSearch_withLimit hvalid hn]
  · unfold matchGuided
    rw [guidedSearch_withLimit hvalid hn]
  · unfold refineInliers
    rw [guidedSearch_withLimit hvalid hn]
  · have hpos : 0 < o.maxNumMatches := (Options.valid_iff_inRange.mp hvalid).maxNumMatches
    obtain ⟨hplain, hguided, hinliers⟩ := exists_found_beyond hpos
    refine ⟨.limitedTo o.maxNumMatches, .copies (o.maxNumMatches + 1), .copies 1,
      Options.limitedTo_valid hpos, rfl, hplain, .still, hguided, ?_, hinliers⟩
    obtain ⟨found, hfound, -⟩ := hguided
    rw [refineInliers_fst, hfound]
    rfl

/-- The options of a search that is asked for one match. -/
def Options.single : Options := { Options.standard with maxNumMatches := 1 }

/-- Both corners are matched, with and without a geometry, and asking for one match changes
nothing. -/
theorem found_bounded_by_features_only_corners :
    (∃ found, matchDescriptors Features.corners.descriptors Features.corners.descriptors .standard =
        .ok found ∧ found.length = 2 ∧ Bounded 2 2 true found ∧
      matchDescriptors Features.corners.descriptors Features.corners.descriptors .single =
        .ok found) ∧
    (∃ found, matchGuided .corners .corners .still .standard = .ok found ∧ found.length = 2 ∧
      Bounded 2 2 true found ∧ matchGuided .corners .corners .still .single = .ok found) ∧
    Bounded 2 2 true (refineInliers .corners .corners .still .standard).2.inliers := by
  have hvalid : Options.standard.Valid := Options.standard_valid
  have hmodel : (Filter.ofGeometry .still Options.standard.maxError).isSupported = true := rfl
  obtain ⟨hplain, hguided, hlimit, -⟩ := found_bounded_by_features_only .standard hvalid
  obtain ⟨hplain', hguided'⟩ := hlimit 1 Nat.one_pos
  obtain ⟨found, hfound, hbounded, -⟩ := hplain Features.corners.descriptors
    Features.corners.descriptors
  have hlength : found.length = 2 := by
    rw [eq_of_matchDescriptors hvalid hfound]
    decide +kernel
  have hfound' := matchGuided_of_valid hvalid hmodel Features.aligned_corners
    Features.aligned_corners
  refine ⟨⟨found, hfound, hlength, hbounded, (hplain' _ _).trans hfound⟩,
    ⟨_, hfound', by decide +kernel, ((hguided .corners .corners .still).1 _ hfound').1,
      (hguided' _ _ _).1.trans hfound'⟩, ((hguided .corners .corners .still).2 rfl ?_).1⟩
  rw [refineInliers_fst, hfound']
  rfl

/-- Two matches are returned where one was asked for, by each call and with or without the cross
check. -/
theorem single_match_exceeded :
    Options.single.Valid ∧ Options.single.maxNumMatches = 1 ∧ Options.single.crossCheck = true ∧
    (∀ crossCheck, matchDescriptors Features.corners.descriptors Features.corners.descriptors
      { Options.single with crossCheck := crossCheck } = .ok [⟨0, 0⟩, ⟨1, 1⟩]) ∧
    (∀ crossCheck, matchGuided .corners .corners .still
      { Options.single with crossCheck := crossCheck } = .ok [⟨0, 0⟩, ⟨1, 1⟩]) ∧
    ∀ crossCheck, (refineInliers .corners .corners .still
      { Options.single with crossCheck := crossCheck }).2.inliers = [⟨0, 0⟩, ⟨1, 1⟩] := by
  have hvalid (crossCheck) : { Options.single with crossCheck := crossCheck }.Valid := by
    cases crossCheck <;> decide +kernel
  have hguided (crossCheck) : matchGuided .corners .corners .still
      { Options.single with crossCheck := crossCheck } = .ok [⟨0, 0⟩, ⟨1, 1⟩] := by
    rw [matchGuided_of_valid (hvalid crossCheck) rfl Features.aligned_corners
      Features.aligned_corners]
    cases crossCheck <;> exact congrArg Except.ok (by decide +kernel)
  refine ⟨hvalid true, rfl, rfl, fun crossCheck => ?_, hguided, fun crossCheck => ?_⟩
  · rw [matchDescriptors_of_valid (hvalid crossCheck)]
    cases crossCheck <;> exact congrArg Except.ok (by decide +kernel)
  · rw [refineInliers_snd, refinement?, hguided]
    rfl

end FeatureMatching
