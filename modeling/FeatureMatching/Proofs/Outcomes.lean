import FeatureMatching.Matching

/-!
# What the entry points return

A matching call checks its options, builds a matrix and searches it. For options that satisfy every
condition the check is out of the way, and the two entry points are what this file says they are:
the correspondences of one matrix each. Which pairs those are is a question about the matrix alone.
-/

set_option autoImplicit false

namespace FeatureMatching

/-! ## Valid options -/

namespace Options

theorem valid_iff_forall {o : Options} :
    o.Valid ↔ ∀ condition ∈ o.conditions, condition.1 = true := by
  unfold Valid violation?
  simp only [Option.map_eq_none_iff, List.find?_eq_none, Bool.not_eq_true', Bool.not_eq_false]

/-- What the conditions say, one after the other. -/
structure InRange (o : Options) : Prop where
  maxRatio : 0 < o.maxRatio
  maxDistance : 0 < o.maxDistance
  maxError : 0 < o.maxError
  maxNumMatches : 0 < o.maxNumMatches
  maxNumTrials : 0 < o.maxNumTrials
  minNumTrials : o.minNumTrials ≤ o.maxNumTrials
  minInlierRatio : 0 ≤ o.minInlierRatio ∧ o.minInlierRatio ≤ 1
  confidence : 0 < o.confidence ∧ o.confidence ≤ 1

theorem valid_iff_inRange {o : Options} : o.Valid ↔ o.InRange := by
  rw [valid_iff_forall]
  simp only [conditions, List.forall_mem_cons, List.not_mem_nil, false_imp_iff, implies_true,
    and_true, Bool.and_eq_true, decide_eq_true_eq]
  constructor
  · rintro ⟨h₁, h₂, h₃, h₄, h₅, h₆, h₇, h₈⟩
    exact ⟨h₁, h₂, h₃, h₄, h₅, h₆, h₇, h₈⟩
  · rintro ⟨h₁, h₂, h₃, h₄, h₅, h₆, h₇, h₈⟩
    exact ⟨h₁, h₂, h₃, h₄, h₅, h₆, h₇, h₈⟩

theorem standard_valid : standard.Valid := by decide +kernel

/-- The geometric error is checked on its own, so any positive one keeps options valid. -/
theorem Valid.withMaxError {o : Options} (h : o.Valid) {maxError : Float} (hpos : 0 < maxError) :
    { o with maxError := maxError }.Valid :=
  have hrange := valid_iff_inRange.mp h
  valid_iff_inRange.mpr { hrange with maxError := hpos }

end Options

theorem Options.validate_of_violation {options : Options} {violation : Options.Violation}
    (h : options.violation? = some violation) :
    options.validate = .error (.invalidOption violation) := by
  unfold Options.validate
  rw [h]

theorem SimilarityMatrix.ofFeatures_of_aligned (rejects : Point Float32 → Point Float32 → Bool)
    {a b : Features} (ha : a.Aligned) (hb : b.Aligned) :
    ofFeatures rejects a b = .ok (masked rejects a b ha hb) := by
  rw [ofFeatures, dif_pos ha, dif_pos hb]

variable [ArcCosine]

/-! ## The two searches -/

theorem matchDescriptors_of_violation {options : Options} {violation : Options.Violation}
    (h : options.violation? = some violation) (a b : Array Descriptor) :
    matchDescriptors a b options = .error (.invalidOption violation) := by
  unfold matchDescriptors plainSearch
  rw [Options.validate_of_violation h]
  rfl

theorem matchDescriptors_of_valid {options : Options} (h : options.Valid)
    (a b : Array Descriptor) :
    matchDescriptors a b options =
      .ok ((SimilarityMatrix.ofDescriptors a b).correspondences options.thresholds
        options.crossCheck) := by
  unfold matchDescriptors plainSearch
  rw [(options.validate_eq_ok_iff).mpr h]
  rfl

theorem matchGuided_of_violation {options : Options} {violation : Options.Violation}
    (h : options.violation? = some violation) (a b : Features) (geometry : TwoView) :
    matchGuided a b geometry options = .error (.invalidOption violation) := by
  unfold matchGuided guidedSearch
  rw [Options.validate_of_violation h]
  rfl

theorem matchGuided_of_valid {options : Options} (h : options.Valid) {geometry : TwoView}
    (hsupported : (Filter.ofGeometry geometry options.maxError).isSupported = true)
    {a b : Features} (ha : a.Aligned) (hb : b.Aligned) :
    matchGuided a b geometry options =
      .ok ((SimilarityMatrix.masked (Filter.ofGeometry geometry options.maxError).rejects a b ha
        hb).correspondences options.thresholds options.crossCheck) := by
  unfold matchGuided guidedSearch
  rw [(options.validate_eq_ok_iff).mpr h]
  simp only [bind, Except.bind, hsupported, if_true, SimilarityMatrix.ofFeatures_of_aligned _ ha hb]
  rfl

theorem eq_of_matchDescriptors {options : Options} (h : options.Valid) {a b : Array Descriptor}
    {found : List Correspondence} (hfound : matchDescriptors a b options = .ok found) :
    found = (SimilarityMatrix.ofDescriptors a b).correspondences options.thresholds
      options.crossCheck :=
  Except.ok.inj (hfound.symm.trans (matchDescriptors_of_valid h a b))

theorem eq_of_matchGuided {options : Options} (h : options.Valid) {geometry : TwoView}
    (hsupported : (Filter.ofGeometry geometry options.maxError).isSupported = true)
    {a b : Features} (ha : a.Aligned) (hb : b.Aligned) {found : List Correspondence}
    (hfound : matchGuided a b geometry options = .ok found) :
    found = (SimilarityMatrix.masked (Filter.ofGeometry geometry options.maxError).rejects a b ha
      hb).correspondences options.thresholds options.crossCheck :=
  Except.ok.inj (hfound.symm.trans (matchGuided_of_valid h hsupported ha hb))

theorem matchGuided_of_unsupported {options : Options} (h : options.Valid) {geometry : TwoView}
    (hunsupported : (Filter.ofGeometry geometry options.maxError).isSupported = false)
    (a b : Features) : matchGuided a b geometry options = .ok [] := by
  unfold matchGuided guidedSearch
  rw [(options.validate_eq_ok_iff).mpr h]
  simp only [bind, Except.bind, hunsupported, Bool.false_eq_true, if_false]
  rfl

/-- Under a model nothing but the masked matrix can make a guided call with valid options fail. -/
theorem matchGuided_of_supported {options : Options} (h : options.Valid) {geometry : TwoView}
    (hsupported : (Filter.ofGeometry geometry options.maxError).isSupported = true)
    (a b : Features) :
    matchGuided a b geometry options =
      (SimilarityMatrix.ofFeatures (Filter.ofGeometry geometry options.maxError).rejects a b).map
        fun m => m.correspondences options.thresholds options.crossCheck := by
  unfold matchGuided guidedSearch
  rw [(options.validate_eq_ok_iff).mpr h]
  simp only [bind, Except.bind, hsupported, if_true]
  cases SimilarityMatrix.ofFeatures (Filter.ofGeometry geometry options.maxError).rejects a b with
  | error fault => rfl
  | ok m => rfl

/-- Two guided calls that differ in the images only differ in what is found in their matrices. -/
theorem matchGuided_eq_map {options : Options} {geometry : TwoView} {a b a' b' : Features}
    (g : Correspondence → Correspondence)
    (h : ∀ (t : Thresholds) (crossCheck : Bool),
      (SimilarityMatrix.ofFeatures (Filter.ofGeometry geometry options.maxError).rejects a' b').map
          (fun m => m.correspondences t crossCheck) =
        (SimilarityMatrix.ofFeatures (Filter.ofGeometry geometry options.maxError).rejects a b).map
          fun m => (m.correspondences t crossCheck).map g) :
    matchGuided a' b' geometry options = (matchGuided a b geometry options).map (List.map g) := by
  cases hviolation : options.violation? with
  | some violation =>
    rw [matchGuided_of_violation hviolation, matchGuided_of_violation hviolation]
    rfl
  | none =>
    have hvalid : options.Valid := hviolation
    by_cases hsupported : (Filter.ofGeometry geometry options.maxError).isSupported = true
    · rw [matchGuided_of_supported hvalid hsupported, matchGuided_of_supported hvalid hsupported, h]
      generalize SimilarityMatrix.ofFeatures _ a b = compared
      cases compared with
      | error fault => rfl
      | ok m => rfl
    · have hunsupported := Bool.eq_false_iff.mpr hsupported
      rw [matchGuided_of_unsupported hvalid hunsupported,
        matchGuided_of_unsupported hvalid hunsupported]
      rfl

/-! ## The five ways in which a guided search ends -/

/-- How a guided search of two images ends, and why. The reasons exclude each other, so this is also
the order in which they are looked for. -/
inductive GuidedOutcome (a b : Features) (geometry : TwoView) (options : Options) :
    Except Fault (Option Search) → Prop where
  | invalid (violation : Options.Violation) (h : options.violation? = some violation) :
    GuidedOutcome a b geometry options (.error (.invalidOption violation))
  | unsupported (valid : options.Valid)
      (h : (Filter.ofGeometry geometry options.maxError).isSupported = false) :
    GuidedOutcome a b geometry options (.ok none)
  | firstMisaligned (valid : options.Valid)
      (supported : (Filter.ofGeometry geometry options.maxError).isSupported = true)
      (h : ¬a.Aligned) :
    GuidedOutcome a b geometry options
      (.error (.misaligned .first a.keypoints.size a.descriptors.size))
  | secondMisaligned (valid : options.Valid)
      (supported : (Filter.ofGeometry geometry options.maxError).isSupported = true)
      (ha : a.Aligned) (h : ¬b.Aligned) :
    GuidedOutcome a b geometry options
      (.error (.misaligned .second b.keypoints.size b.descriptors.size))
  | searched (valid : options.Valid)
      (supported : (Filter.ofGeometry geometry options.maxError).isSupported = true)
      (ha : a.Aligned) (hb : b.Aligned) :
    GuidedOutcome a b geometry options
      (.ok (some ((SimilarityMatrix.masked (Filter.ofGeometry geometry options.maxError).rejects a b
        ha hb).search options.thresholds options.crossCheck)))

/-- **What a guided search can do.** Everything that is said below about guided calls is a case
analysis of this. -/
theorem guidedSearch_outcome (a b : Features) (geometry : TwoView) (options : Options) :
    GuidedOutcome a b geometry options (guidedSearch a b geometry options) := by
  unfold guidedSearch
  cases hviolation : options.violation? with
  | some violation =>
    rw [Options.validate_of_violation hviolation]
    exact .invalid violation hviolation
  | none =>
    have hvalid : options.Valid := hviolation
    rw [options.validate_eq_ok_iff.mpr hvalid]
    simp only [bind, Except.bind]
    by_cases hsupported : (Filter.ofGeometry geometry options.maxError).isSupported = true
    · rw [if_pos hsupported, SimilarityMatrix.ofFeatures]
      by_cases ha : a.Aligned
      · rw [dif_pos ha]
        by_cases hb : b.Aligned
        · rw [dif_pos hb]
          exact .searched hvalid hsupported ha hb
        · rw [dif_neg hb]
          exact .secondMisaligned hvalid hsupported ha hb
      · rw [dif_neg ha]
        exact .firstMisaligned hvalid hsupported ha
    · rw [if_neg hsupported]
      exact .unsupported hvalid (Bool.eq_false_iff.mpr hsupported)

end FeatureMatching
