import Mathlib
import FeatureMatching.Proofs.CheckedRun
import FeatureMatching.Proofs.InlierHistory

/-!
# Which fault a call reports

Several things can be wrong with one call, and a caller sees one of them. The options come first:
they have to meet eight requirements, and the fault names the first one in a fixed order that they
do not meet (`Options.validate_eq_error_iff`). Every requirement is a comparison that has to hold,
so a NaN never meets one (`Options.Requirement.not_met_of_isNaN`). Then comes the model: without one
there is nothing to do, and nobody looks at the images. Only then are the images looked at, the
first one first.

The three calls reach this order on different ways. That they agree is read off the one run that
they share, by cases of `guidedSearch_outcome`.
-/

set_option autoImplicit false

namespace FeatureMatching

namespace Options

/-! ## Requirements on options -/

/-- What is required of options, by the setting that is at fault. -/
inductive Requirement where
  | maxRatio
  | maxDistance
  | maxError
  | maxNumMatches
  | maxNumTrials
  | minNumTrials
  | minInlierRatio
  | confidence

namespace Requirement

/-- The order in which the requirements are looked at. -/
def order : List Requirement :=
  [maxRatio, maxDistance, maxError, maxNumMatches, maxNumTrials, minNumTrials, minInlierRatio,
    confidence]

def Met (o : Options) : Requirement → Prop
  | maxRatio => 0 < o.maxRatio
  | maxDistance => 0 < o.maxDistance
  | maxError => 0 < o.maxError
  | maxNumMatches => 0 < o.maxNumMatches
  | maxNumTrials => 0 < o.maxNumTrials
  | minNumTrials => o.minNumTrials ≤ o.maxNumTrials
  | minInlierRatio => 0 ≤ o.minInlierRatio ∧ o.minInlierRatio ≤ 1
  | confidence => 0 < o.confidence ∧ o.confidence ≤ 1

instance (o : Options) : DecidablePred (Met o)
  | maxRatio => inferInstanceAs (Decidable (0 < o.maxRatio))
  | maxDistance => inferInstanceAs (Decidable (0 < o.maxDistance))
  | maxError => inferInstanceAs (Decidable (0 < o.maxError))
  | maxNumMatches => inferInstanceAs (Decidable (0 < o.maxNumMatches))
  | maxNumTrials => inferInstanceAs (Decidable (0 < o.maxNumTrials))
  | minNumTrials => inferInstanceAs (Decidable (o.minNumTrials ≤ o.maxNumTrials))
  | minInlierRatio => inferInstanceAs (Decidable (0 ≤ o.minInlierRatio ∧ o.minInlierRatio ≤ 1))
  | confidence => inferInstanceAs (Decidable (0 < o.confidence ∧ o.confidence ≤ 1))

/-- What is reported of options that do not meet a requirement. -/
def violation (o : Options) : Requirement → Violation
  | maxRatio => .maxRatio o.maxRatio
  | maxDistance => .maxDistance o.maxDistance
  | maxError => .maxError o.maxError
  | maxNumMatches => .maxNumMatches
  | maxNumTrials => .maxNumTrials
  | minNumTrials => .minNumTrials o.maxNumTrials o.minNumTrials
  | minInlierRatio => .minInlierRatio o.minInlierRatio
  | confidence => .confidence o.confidence

/-- The written name of the setting. -/
def name : Requirement → String
  | maxRatio => "max_ratio"
  | maxDistance => "max_distance"
  | maxError => "max_error"
  | maxNumMatches => "max_num_matches"
  | maxNumTrials => "max_num_trials"
  | minNumTrials => "min_num_trials"
  | minInlierRatio => "min_inlier_ratio"
  | confidence => "confidence"

theorem option_violation (o : Options) (r : Requirement) : (r.violation o).option = r.name := by
  cases r <;> rfl

/-- The setting is a number with a fraction, and it is NaN. -/
def IsNaN (o : Options) : Requirement → Prop
  | maxRatio => o.maxRatio.isNaN = true
  | maxDistance => o.maxDistance.isNaN = true
  | maxError => o.maxError.isNaN = true
  | minInlierRatio => o.minInlierRatio.isNaN = true
  | confidence => o.confidence.isNaN = true
  | maxNumMatches | maxNumTrials | minNumTrials => False

/-- **NaN does not meet a requirement.** -/
theorem not_met_of_isNaN {o : Options} {r : Requirement} (h : r.IsNaN o) : ¬r.Met o := by
  intro hmet
  cases r with
  | maxRatio | maxDistance =>
    exact absurd (Numeric.lt_iff_position32.mp hmet).1.2 (ne_false_of_eq_true h)
  | maxError => exact absurd (Numeric.lt_iff_position64.mp hmet).1.2 (ne_false_of_eq_true h)
  | minInlierRatio =>
    exact absurd (Numeric.le_iff_position64.mp hmet.1).1.2 (ne_false_of_eq_true h)
  | confidence => exact absurd (Numeric.lt_iff_position64.mp hmet.1).1.2 (ne_false_of_eq_true h)
  | maxNumMatches | maxNumTrials | minNumTrials => exact h

end Requirement

/-- The requirement is not met, and those before it are. -/
def FirstBroken (o : Options) (r : Requirement) : Prop :=
  ∃ before after, Requirement.order = before ++ r :: after ∧ (∀ q ∈ before, q.Met o) ∧ ¬r.Met o

theorem conditions_eq (o : Options) :
    o.conditions = Requirement.order.map fun r => (decide (r.Met o), r.violation o) := by
  simp only [conditions, ← Bool.decide_and]
  rfl

theorem violation?_eq (o : Options) :
    o.violation? =
      (Requirement.order.find? fun r => !decide (r.Met o)).map (Requirement.violation o) := by
  rw [violation?, conditions_eq, List.find?_map, Option.map_map]
  rfl

theorem violation?_eq_some_iff {o : Options} {violation : Violation} :
    o.violation? = some violation ↔ ∃ r, o.FirstBroken r ∧ violation = r.violation o := by
  have hfirst (r : Requirement) :
      Requirement.order.find? (fun q => !decide (q.Met o)) = some r ↔ o.FirstBroken r := by
    simp only [List.find?_eq_some_iff_append, FirstBroken, Bool.not_eq_true', Bool.not_not,
      decide_eq_false_iff_not, decide_eq_true_eq]
    constructor
    · rintro ⟨hr, before, after, horder, hbefore⟩
      exact ⟨before, after, horder, hbefore, hr⟩
    · rintro ⟨before, after, horder, hbefore, hr⟩
      exact ⟨hr, before, after, horder, hbefore⟩
  rw [violation?_eq, Option.map_eq_some_iff]
  simp only [hfirst, eq_comm]

/-- **The fault of options is the first requirement that they do not meet.** -/
theorem validate_eq_error_iff {o : Options} {fault : Fault} :
    o.validate = .error fault ↔
      ∃ r, o.FirstBroken r ∧ fault = .invalidOption (r.violation o) := by
  have hviolation : o.validate = .error fault ↔
      ∃ violation, o.violation? = some violation ∧ fault = .invalidOption violation := by
    unfold validate
    cases o.violation? <;> simp [eq_comm]
  rw [hviolation]
  constructor
  · rintro ⟨_, h, rfl⟩
    obtain ⟨r, hr, rfl⟩ := violation?_eq_some_iff.mp h
    exact ⟨r, hr, rfl⟩
  · rintro ⟨r, hr, rfl⟩
    exact ⟨_, violation?_eq_some_iff.mpr ⟨r, hr, rfl⟩, rfl⟩

end Options

/-! ## What the calls answer -/

section Answers

variable [ArcCosine]

/-- What the two guided calls answer, in the order in which the reasons are looked for. -/
structure AnswersInOrder (a b : Features) (geometry : TwoView) (o : Options) : Prop where
  invalid : ∀ violation, matchGuided a b geometry o = .error (.invalidOption violation) ↔
    o.validate = .error (.invalidOption violation)
  unsupported : o.validate = .ok () →
    (geometry.configuration.isEpipolar || geometry.configuration.isHomography) = false →
    guidedSearch a b geometry o = .ok none ∧ matchGuided a b geometry o = .ok [] ∧
      refineInliers a b geometry o = (.ok (), geometry)
  firstMisaligned : o.validate = .ok () →
    (geometry.configuration.isEpipolar || geometry.configuration.isHomography) = true →
    ∀ keypoints descriptors,
      matchGuided a b geometry o = .error (.misaligned .first keypoints descriptors) ↔
        ¬a.Aligned ∧ a.keypoints.size = keypoints ∧ a.descriptors.size = descriptors
  secondMisaligned : o.validate = .ok () →
    (geometry.configuration.isEpipolar || geometry.configuration.isHomography) = true →
    a.Aligned → ∀ keypoints descriptors,
      matchGuided a b geometry o = .error (.misaligned .second keypoints descriptors) ↔
        ¬b.Aligned ∧ b.keypoints.size = keypoints ∧ b.descriptors.size = descriptors
  matched : o.validate = .ok () →
    (geometry.configuration.isEpipolar || geometry.configuration.isHomography) = true →
    a.Aligned → b.Aligned → ∃ found, matchGuided a b geometry o = .ok found ∧
      refineInliers a b geometry o = (.ok (), { geometry with inliers := found })
  sameFault : (refineInliers a b geometry o).1 = (matchGuided a b geometry o).map fun _ => ()

theorem answersInOrder (a b : Features) (geometry : TwoView) (o : Options) :
    AnswersInOrder a b geometry o := by
  have hmodel := Filter.isSupported_ofGeometry geometry o.maxError
  have hmatch : matchGuided a b geometry o = (guidedSearch a b geometry o).map fun found =>
      (found.map Search.found).getD [] := rfl
  have hrefine : refineInliers a b geometry o =
      ((guidedSearch a b geometry o).map fun _ => (),
        geometry.updated (guidedSearch a b geometry o)) := rfl
  have houtcome := guidedSearch_outcome a b geometry o
  generalize hsearch : guidedSearch a b geometry o = outcome at houtcome
  rw [hsearch] at hmatch hrefine
  -- Each case knows the answers of both calls and decides the conditions of every clause.
  cases houtcome with
  | invalid violation h =>
    have hinvalid := Options.validate_of_violation h
    constructor <;> simp [hmatch, hrefine, hinvalid, Except.map]
  | unsupported valid h =>
    have hvalid := o.validate_eq_ok_iff.mpr valid
    rw [h] at hmodel
    constructor <;> simp [hsearch, hmatch, hrefine, hvalid, ← hmodel, Except.map, TwoView.updated]
  | firstMisaligned valid supported h =>
    have hvalid := o.validate_eq_ok_iff.mpr valid
    rw [supported] at hmodel
    constructor <;> simp [hmatch, hrefine, hvalid, ← hmodel, h, Except.map]
  | secondMisaligned valid supported ha h =>
    have hvalid := o.validate_eq_ok_iff.mpr valid
    rw [supported] at hmodel
    constructor <;> simp [hmatch, hrefine, hvalid, ← hmodel, ha, h, Except.map]
  | searched valid supported ha hb =>
    have hvalid := o.validate_eq_ok_iff.mpr valid
    rw [supported] at hmodel
    constructor <;>
      simp [hmatch, hrefine, hvalid, ← hmodel, ha, hb, Except.map, TwoView.updated]

theorem matchDescriptors_eq_error_iff {a b : Array Descriptor} {o : Options} {fault : Fault} :
    matchDescriptors a b o = .error fault ↔ o.validate = .error fault := by
  unfold matchDescriptors plainSearch
  cases o.validate with
  | error violation => simp [Except.map, bind, Except.bind]
  | ok => simp [Except.map, bind, Except.bind, pure, Except.pure]

end Answers

/-! ## The result -/

/-- **Every call reports the first thing that is wrong with it, and no call stops.** The options are
looked at first, in the order of their requirements; a missing model is not a fault, whatever the
images are; of two misaligned images the first one is reported. Matching by descriptors alone has
nothing but the options to report. That no call stops is said of the checked runs, which allocate
their blocks without a limit on the size: images with more pairs of features than an allocation can
hold are left out. -/
theorem faults_reported_in_order [ArcCosine] :
    Options.Requirement.order.map Options.Requirement.name =
      ["max_ratio", "max_distance", "max_error", "max_num_matches", "max_num_trials",
        "min_num_trials", "min_inlier_ratio", "confidence"] ∧
    (∀ (o : Options) (r : Options.Requirement), (r.violation o).option = r.name ∧
      (r.IsNaN o → ¬r.Met o)) ∧
    (∀ (o : Options) (fault : Fault), o.validate = .error fault ↔
      ∃ r, o.FirstBroken r ∧ fault = .invalidOption (r.violation o)) ∧
    (∀ (a b : Features) (geometry : TwoView) (o : Options), AnswersInOrder a b geometry o ∧
      matchGuided? a b geometry o = some (matchGuided a b geometry o) ∧
      refineInliers? a b geometry o = some (refineInliers a b geometry o)) ∧
    ∀ (a b : Array Descriptor) (o : Options),
      (∀ fault, matchDescriptors a b o = .error fault ↔ o.validate = .error fault) ∧
      matchDescriptors? a b o = some (matchDescriptors a b o) := by
  refine ⟨rfl, fun o r => ⟨r.option_violation o, Options.Requirement.not_met_of_isNaN⟩,
    fun o fault => Options.validate_eq_error_iff, fun a b geometry o => ?_, fun a b o => ?_⟩
  · exact ⟨answersInOrder a b geometry o, matchGuided?_eq a b geometry o,
      refineInliers?_eq a b geometry o⟩
  · exact ⟨fun fault => matchDescriptors_eq_error_iff, matchDescriptors?_eq a b o⟩

/-- An image with a keypoint that has no descriptor. -/
def Features.lopsided : Features := ⟨#[.origin], #[]⟩

/-- Options with three settings out of range, the first one a NaN. -/
def Options.broken : Options :=
  { Options.standard with maxDistance := Numeric.nan32, maxNumMatches := 0, confidence := 2 }

/-- Two lopsided images are reported after broken options and after the lack of a model, the second
one after the first; images without features match. -/
theorem faults_reported_in_order_lopsided :
    Options.broken.validate = .error (.invalidOption (.maxDistance Numeric.nan32)) ∧
    matchGuided .lopsided .lopsided .unknown .broken =
      .error (.invalidOption (.maxDistance Numeric.nan32)) ∧
    matchGuided .lopsided .lopsided .unknown .standard = .ok [] ∧
    matchGuided .lopsided .lopsided .still .standard = .error (.misaligned .first 1 0) ∧
    matchGuided .empty .lopsided .still .standard = .error (.misaligned .second 1 0) ∧
    (∃ found, matchGuided .empty .empty .still .standard = .ok found) ∧
    matchDescriptors #[] #[] .broken = .error (.invalidOption (.maxDistance Numeric.nan32)) := by
  obtain ⟨-, hrequirement, hvalidate, hguided, hplain⟩ := faults_reported_in_order
  have hvalid : Options.standard.validate = .ok () :=
    (Options.validate_eq_ok_iff _).mpr Options.standard_valid
  have hbroken :
      Options.broken.validate = .error (.invalidOption (.maxDistance Numeric.nan32)) := by
    refine (hvalidate _ _).mpr ⟨.maxDistance, ⟨[.maxRatio], _, rfl, ?_, ?_⟩, rfl⟩
    · decide +kernel
    · exact (hrequirement _ .maxDistance).2 rfl
  have hlopsided : ¬Features.lopsided.Aligned := by decide
  have hempty : Features.empty.Aligned := rfl
  refine ⟨hbroken, ?_, ?_, ?_, ?_, ?_, ?_⟩
  · exact ((hguided _ _ _ _).1.invalid _).mpr hbroken
  · exact ((hguided _ _ _ _).1.unsupported hvalid rfl).2.1
  · exact ((hguided _ _ _ _).1.firstMisaligned hvalid rfl _ _).mpr ⟨hlopsided, rfl, rfl⟩
  · exact ((hguided _ _ _ _).1.secondMisaligned hvalid rfl hempty _ _).mpr ⟨hlopsided, rfl, rfl⟩
  · obtain ⟨found, hfound, -⟩ := (hguided _ _ .still _).1.matched hvalid rfl hempty hempty
    exact ⟨found, hfound⟩
  · exact ((hplain _ _ _).1 _).mpr hbroken

end FeatureMatching
