import Mathlib
import FeatureMatching.Session
import FeatureMatching.Proofs.FewerCompetitors

/-!
# Where the inliers of a session come from

A guided call fails, has no model to match under, or matches; and when it matches it may find
nothing. A caller who only asks for the correspondences gets the empty list in two of these cases.
Refining the inliers must keep the two apart: without a model the old inliers stay, while an empty
list of matches replaces them like any other. `refinement?` is that distinction, made on top of the
matcher that only answers, and `refineInliers_snd` says that nothing else happens to the geometry.

Over a run the inliers are therefore those of the latest refinement that counted, or the ones that
the session began with. The step is `inliers_after`, one case for each command; the run is an
induction on the commands (`inliers_run`). Commands that set the inliers themselves are left out;
the others reach every session that has the same inliers (`run_edits`), so what happens between two
refinements is arbitrary.
-/

set_option autoImplicit false

namespace FeatureMatching

/-! ## One refinement -/

section Refinement

variable [ArcCosine] (a b : Features) (geometry : TwoView) (options : Options)

/-- What refining puts in place of the inliers: the guided correspondences, provided that the
geometry has a model and the matcher does not fail. -/
def refinement? : Option (List Correspondence) :=
  if geometry.configuration.isEpipolar || geometry.configuration.isHomography then
    (matchGuided a b geometry options).toOption
  else none

/-- Refining fails when the matcher that only answers fails, and with the same fault. -/
theorem refineInliers_fst :
    (refineInliers a b geometry options).1 =
      (matchGuided a b geometry options).map fun _ => () := by
  unfold refineInliers matchGuided
  cases guidedSearch a b geometry options <;> rfl

theorem refinement?_eq :
    refinement? a b geometry options =
      ((guidedSearch a b geometry options).toOption.join).map Search.found := by
  have houtcome := guidedSearch_outcome a b geometry options
  unfold refinement? matchGuided
  rw [← Filter.isSupported_ofGeometry geometry options.maxError]
  generalize guidedSearch a b geometry options = outcome at houtcome
  cases houtcome with
  | invalid violation h => exact ite_self _
  | unsupported valid h => rw [if_neg (Bool.eq_false_iff.mp h)]; rfl
  | firstMisaligned valid supported h | secondMisaligned valid supported ha h => exact ite_self _
  | searched valid supported ha hb => rw [if_pos supported]; rfl

/-- **Refining touches nothing but the inliers**, and those only if there is something to put in
their place. -/
theorem refineInliers_snd :
    (refineInliers a b geometry options).2 =
      { geometry with
        inliers := (refinement? a b geometry options).getD geometry.inliers } := by
  rw [refinement?_eq]
  unfold refineInliers
  rcases guidedSearch a b geometry options with fault | found
  · rfl
  · cases found <;> rfl

theorem refinement?_of_error {fault : Fault}
    (h : matchGuided a b geometry options = .error fault) :
    refinement? a b geometry options = none := by
  unfold refinement?
  rw [h]
  exact ite_self _

theorem refinement?_of_unsupported
    (h : (geometry.configuration.isEpipolar || geometry.configuration.isHomography) = false) :
    refinement? a b geometry options = none :=
  if_neg (Bool.eq_false_iff.mp h)

end Refinement

/-! ## One command -/

namespace Command

/-- Whether a command leaves the inliers to the matcher. -/
def sparesInliers : Command → Bool
  | .setInliers _ | .addInlier _ | .exchange => false
  | _ => true

def isRefinement : Command → Bool
  | .refineInliers => true
  | _ => false

end Command

namespace Session

@[simp] theorem geometry_withFeatures (s : Session) (side : Side) (f : Features) :
    (s.withFeatures side f).geometry = s.geometry := by
  cases side <;> rfl

@[simp] theorem geometry_withDescriptors (s : Session) (side : Side)
    (descriptors : Array Descriptor) :
    (s.withDescriptors side descriptors).geometry = s.geometry :=
  geometry_withFeatures s side _

section Run

variable [ArcCosine]

def refinement? (s : Session) : Option (List Correspondence) :=
  FeatureMatching.refinement? s.first s.second s.geometry s.options

/-- **One command keeps the inliers or refines them.** -/
theorem inliers_after (s : Session) {c : Command} (h : c.sparesInliers = true) :
    (s.after c).geometry.inliers =
      (if c.isRefinement then s.refinement? else none).getD s.geometry.inliers := by
  cases c with
  | setInliers _ | addInlier _ | exchange => cases h
  | refineInliers =>
    show (FeatureMatching.refineInliers _ _ _ _).2.inliers = _
    rw [refineInliers_snd]
    rfl
  | move side index position =>
    -- Whether there is such a keypoint or not, only an image is touched.
    simp only [after, Command.isRefinement]
    split <;> simp
  | _ => simp [after, Command.isRefinement]

/-! ## A whole run -/

/-- The states in which a list of commands refines the inliers, the first one first. -/
def refinements (s : Session) : List Command → List Session
  | [] => []
  | c :: rest => (if c.isRefinement then [s] else []) ++ (s.after c).refinements rest

theorem run_cons (s : Session) (c : Command) (rest : List Command) :
    s.run (c :: rest) = (s.after c).run rest := rfl

/-- **A run ends with the inliers of its latest refinement that counted.** -/
theorem inliers_run (s : Session) (commands : List Command)
    (h : ∀ c ∈ commands, c.sparesInliers = true) :
    (s.run commands).geometry.inliers =
      ((s.refinements commands).filterMap refinement?).getLast?.getD s.geometry.inliers := by
  -- The first command changes what the rest starts from, so the session is not fixed.
  induction commands generalizing s with
  | nil => rfl
  | cons c rest ih =>
    obtain ⟨hc, hrest⟩ := List.forall_mem_cons.mp h
    have hfirst : ((if c.isRefinement then [s] else []).filterMap refinement?).getLast? =
        if c.isRefinement then s.refinement? else none := by
      cases c.isRefinement with
      | false => rfl
      | true => cases hs : s.refinement? <;> simp [hs]
    rw [run_cons, ih (s.after c) hrest, inliers_after s hc, refinements, List.filterMap_append,
      List.getLast?_append, hfirst, Option.getD_or]

end Run

/-! ## What happens between two refinements -/

/-- Commands that turn a session with the same inliers into this one. -/
def edits (s : Session) : List Command :=
  [.setKeypoints .first s.first.keypoints, .setDescriptors .first s.first.descriptors,
    .setKeypoints .second s.second.keypoints, .setDescriptors .second s.second.descriptors,
    .setConfiguration s.geometry.configuration, .setFundamental s.geometry.fundamental,
    .setHomography s.geometry.homography, .set (.maxRatio s.options.maxRatio),
    .set (.maxDistance s.options.maxDistance), .set (.crossCheck s.options.crossCheck),
    .set (.maxNumMatches s.options.maxNumMatches), .set (.maxError s.options.maxError),
    .set (.confidence s.options.confidence),
    .set (.numTrials s.options.minNumTrials s.options.maxNumTrials),
    .set (.minInlierRatio s.options.minInlierRatio), .set (.minNumInliers s.options.minNumInliers),
    .set (.multipleModels s.options.multipleModels),
    .set (.guidedMatching s.options.guidedMatching)]

theorem edits_spareInliers (s : Session) :
    ∀ c ∈ s.edits, c.sparesInliers = true ∧ c.isRefinement = false := by
  simp [edits, Command.sparesInliers, Command.isRefinement]

/-- **Everything but the inliers can be changed**, at once and to anything. -/
theorem run_edits [ArcCosine] {s s' : Session} (h : s'.geometry.inliers = s.geometry.inliers) :
    s.run s'.edits = s' := by
  obtain ⟨first, second, ⟨configuration, fundamental, homography, inliers⟩, options⟩ := s'
  obtain rfl : inliers = s.geometry.inliers := h
  simp only [run, edits, List.foldl_cons, List.foldl_nil, after, withFeatures, withDescriptors,
    features, Options.set]

/-- **The inliers are those of the latest refinement that succeeded under a model.** Every session
that agrees in the inliers is reached by commands that do not touch them, so the refinements of a
run can be anything. Each of them answers as the matcher that returns its correspondences, changes
nothing of the geometry but the inliers, and nothing at all if it fails or has no model. -/
theorem inliers_of_latest_refinement [ArcCosine] :
    (∀ (s : Session) (commands : List Command), (∀ c ∈ commands, c.sparesInliers = true) →
      (s.run commands).geometry.inliers =
        ((s.refinements commands).filterMap refinement?).getLast?.getD s.geometry.inliers) ∧
    (∀ s s' : Session, s'.geometry.inliers = s.geometry.inliers →
      ∃ commands, (∀ c ∈ commands, c.sparesInliers = true ∧ c.isRefinement = false) ∧
        s.run commands = s') ∧
    ∀ (a b : Features) (geometry : TwoView) (options : Options),
      let call := FeatureMatching.refineInliers a b geometry options
      call.1 = (FeatureMatching.matchGuided a b geometry options).map (fun _ => ()) ∧
      (call.2.configuration = geometry.configuration ∧
        call.2.fundamental = geometry.fundamental ∧ call.2.homography = geometry.homography) ∧
      ((∃ fault, call.1 = .error fault) ∨
          (geometry.configuration.isEpipolar || geometry.configuration.isHomography) = false →
        call.2 = geometry) := by
  refine ⟨inliers_run, fun s s' h => ⟨s'.edits, s'.edits_spareInliers, run_edits h⟩, ?_⟩
  intro a b geometry options call
  have hchanged := refineInliers_snd a b geometry options
  refine ⟨refineInliers_fst a b geometry options, ?_, ?_⟩
  · rw [show call.2 = _ from hchanged]
    exact ⟨rfl, rfl, rfl⟩
  · intro hnothing
    suffices hnone : FeatureMatching.refinement? a b geometry options = none by
      rw [show call.2 = _ from hchanged, hnone]
      rfl
    rcases hnothing with ⟨fault, hfault⟩ | hunsupported
    · rw [show call.1 = _ from refineInliers_fst a b geometry options] at hfault
      cases hguided : FeatureMatching.matchGuided a b geometry options with
      | error fault' => exact refinement?_of_error a b geometry options hguided
      | ok found => rw [hguided] at hfault; cases hfault
    · exact refinement?_of_unsupported a b geometry options hunsupported

/-- Two equal images under a camera that did not move, with an inlier from elsewhere. -/
def corners : Session where
  first := .corners
  second := .corners
  geometry := { TwoView.still with inliers := [⟨7, 7⟩] }
  options := .standard

/-- The first refinement finds both corners; one without a model and one with an invalid ratio do
not count. A refinement of an image without features does, and it leaves no inlier. -/
theorem inliers_of_latest_refinement_corners :
    let refined := [.refineInliers, .setConfiguration .watermark, .refineInliers,
      .setConfiguration .planar, .set (.maxRatio 0), .refineInliers]
    let emptied := refined ++ [.set (.maxRatio 0.8), .setKeypoints .first #[],
      .setDescriptors .first #[], .refineInliers]
    (corners.run refined).geometry.inliers = [⟨0, 0⟩, ⟨1, 1⟩] ∧
    (corners.run emptied).geometry.inliers = [] ∧
    (∃ commands, (∀ c ∈ commands, c.sparesInliers = true ∧ c.isRefinement = false) ∧
      corners.run commands = { corners with options := { Options.standard with maxRatio := 0 } }) ∧
    (FeatureMatching.refineInliers .corners .corners
      { TwoView.still with configuration := .watermark } .standard).2 =
        { TwoView.still with configuration := .watermark } := by
  intro refined emptied
  obtain ⟨hrun, hedits, hcall⟩ := inliers_of_latest_refinement
  refine ⟨?_, ?_, hedits _ _ rfl, (hcall _ _ _ _).2.2 (Or.inr rfl)⟩
  · rw [hrun corners refined (by decide)]
    decide +kernel
  · rw [hrun corners emptied (by decide)]
    decide +kernel

end Session

end FeatureMatching
