import Mathlib
import FeatureMatching.Proofs.AngleOrder
import FeatureMatching.Proofs.FilterThreshold
import FeatureMatching.Proofs.MutualMatching
import FeatureMatching.Proofs.Outcomes

/-!
# A choice survives when its competitors get fewer or weaker

Masking a pair and removing a feature do the same thing to a row: some entries disappear or drop to
zero, and what is left keeps its order. A column that the row chose before is still the first
largest then, and the runner-up can only be further away, so the row still chooses it
(`Thresholds.Accepts.of_fewer`). The same holds of the columns, and with it of a whole search, with
and without the cross check (`SimilarityMatrix.mem_correspondences_of_fewer`).

The order of the features matters for one reason: of two equal entries the first one is chosen. With
a ratio of at most 1 it does not matter at all, because the ratio test rejects both, and the same
theorem holds when the features that are left are put in another order. `Thresholds.Tolerates` is
the list of these two cases. What they leave out is a ratio of `-∞`, which valid options exclude; a
NaN ratio, an infinite one and a negative one are covered by the first case.
-/

set_option autoImplicit false

namespace FeatureMatching

open Numeric

/-! ## Rows -/

section Row

variable {n k : Nat} {t : Thresholds} {row : Fin n → Int32} {row' : Fin k → Int32}
  {φ : Fin k → Fin n} {c : Fin k}

/-- The ways of picking features under which no choice is lost. -/
inductive Thresholds.Tolerates (t : Thresholds) (φ : Fin k → Fin n) : Prop where
  /-- Picking some of them without changing their order. -/
  | increasing (ratio : ¬t.maxRatio ≤ -infinity32) (h : StrictMono φ) : t.Tolerates φ
  /-- Picking some of them in any order, when the ratio leaves no room for a tie. -/
  | anyOrder (positive : 0 < t.maxRatio) (ratio : t.maxRatio ≤ 1) (h : Function.Injective φ) :
      t.Tolerates φ

theorem Thresholds.Tolerates.injective (h : t.Tolerates φ) : Function.Injective φ := by
  cases h with
  | increasing _ h => exact h.injective
  | anyOrder _ _ h => exact h

theorem Thresholds.Tolerates.ratio (h : t.Tolerates φ) : ¬t.maxRatio ≤ -infinity32 := by
  cases h with
  | increasing ratio _ => exact ratio
  | anyOrder positive _ _ => exact not_le_neg_infinity32 positive

theorem runnerUp_le_of_fewer (hφ : Function.Injective φ)
    (hfewer : ∀ j, row' j ≤ row (φ j) ∨ row' j ≤ 0) : runnerUp row' c ≤ runnerUp row (φ c) := by
  refine runnerUp_le_iff.mpr ⟨runnerUp_nonneg row (φ c), fun j hne => ?_⟩
  rcases hfewer j with hle | hle
  · exact Int32.le_trans hle (le_runnerUp (hφ.ne hne))
  · exact Int32.le_trans hle (runnerUp_nonneg row (φ c))

variable [ArcCosine] [ArcCosine.Lawful]

/-- **A ratio of at most 1 rejects every tie.** A runner-up with the same entry has the same angle,
and the choice would have to be strictly below a part of it. -/
theorem Thresholds.Accepts.lt_of_ne (hpos : 0 < t.maxRatio) (hle : t.maxRatio ≤ 1) {d : Fin n}
    (h : t.Accepts row d) {j : Fin n} (hne : j ≠ d) : row j < row d := by
  -- A tie makes the runner-up as good as the choice.
  refine Int32.lt_of_le_of_ne (h.leads.1 j) fun heq => h.clear ?_
  have hsecond : runnerUp row d = row d := (runnerUp_eq_iff h.positive h.leads.1).mpr ⟨j, hne, heq⟩
  rw [hsecond]
  exact ratio_mul_angle_le_self hpos hle (row d)

theorem Thresholds.Accepts.lt_of_lt (hφ : t.Tolerates φ) (h : t.Accepts row (φ c)) {j : Fin k}
    (hj : j < c) : row (φ j) < row (φ c) := by
  cases hφ with
  | increasing _ hmono => exact h.leads.2 (φ j) (hmono hj)
  | anyOrder hpos hle hinj => exact h.lt_of_ne hpos hle (hinj.ne hj.ne)

/-- **A row keeps its choice** when the competitors get fewer or weaker. -/
theorem Thresholds.Accepts.of_fewer (hφ : t.Tolerates φ) (hc : row' c = row (φ c))
    (hfewer : ∀ j, row' j ≤ row (φ j) ∨ row' j ≤ 0) (h : t.Accepts row (φ c)) :
    t.Accepts row' c where
  positive := hc ▸ h.positive
  leads := by
    constructor
    · intro j
      rw [hc]
      -- An entry that is not positive any more is below the choice, which is.
      rcases hfewer j with hle | hle
      · exact Int32.le_trans hle (h.leads.1 (φ j))
      · exact Int32.le_trans hle (Int32.le_of_lt h.positive)
    · intro j hj
      rw [hc]
      rcases hfewer j with hle | hle
      · exact Int32.lt_of_le_of_lt hle (h.lt_of_lt hφ hj)
      · exact Int32.lt_of_le_of_lt hle h.positive
  near := hc ▸ h.near
  clear := by
    intro hambiguous
    rw [hc] at hambiguous
    have hsecond : runnerUp row' c ≤ runnerUp row (φ c) :=
      runnerUp_le_of_fewer hφ.injective hfewer
    exact h.clear (ratio_mul_angle_le_of_le hφ.ratio hsecond hambiguous)

end Row

/-! ## Searches -/

namespace SimilarityMatrix

section Search

variable [ArcCosine] [ArcCosine.Lawful] {n n' k k' : Nat}
  {f : Fin n → Fin k → Int32} {f' : Fin n' → Fin k' → Int32}
  {t : Thresholds} {crossCheck : Bool} {r : Fin n'} {c : Fin k'}

/-- **A search keeps a pair** whose entry stays, when every other entry is removed, gets smaller or
stops being positive. -/
theorem mem_correspondences_of_fewer {φ : Fin n' → Fin n} {ψ : Fin k' → Fin k}
    (hφ : t.Tolerates φ) (hψ : t.Tolerates ψ)
    (hfewer : ∀ r c, f' r c ≤ f (φ r) (ψ c) ∨ f' r c ≤ 0) (hentry : f' r c = f (φ r) (ψ c))
    (h : ⟨φ r, ψ c⟩ ∈ (ofFn f).correspondences t crossCheck) :
    ⟨r, c⟩ ∈ (ofFn f').correspondences t crossCheck := by
  rw [mem_correspondences_ofFn] at h ⊢
  obtain ⟨hrow, hcolumn⟩ := h
  constructor
  · exact hrow.of_fewer hψ hentry fun j => hfewer r j
  · intro hcheck
    exact Thresholds.Accepts.of_fewer hφ hentry (fun i => hfewer i c) (hcolumn hcheck)

theorem mem_correspondences_of_picked {φ : Fin n' → Fin n} {ψ : Fin k' → Fin k}
    (hφ : t.Tolerates φ) (hψ : t.Tolerates ψ) (hentry : ∀ r c, f' r c = f (φ r) (ψ c))
    (h : ⟨φ r, ψ c⟩ ∈ (ofFn f).correspondences t crossCheck) :
    ⟨r, c⟩ ∈ (ofFn f').correspondences t crossCheck :=
  mem_correspondences_of_fewer hφ hψ (fun r c => Or.inl (Int32.le_of_eq (hentry r c)))
    (hentry r c) h

end Search

end SimilarityMatrix

/-! ## Masking -/

/-- A correspondence whose two positions a test rejects. -/
def Features.Excluded (a b : Features) (ha : a.Aligned) (hb : b.Aligned)
    (rejects : Point Float32 → Point Float32 → Bool) (p : Correspondence) : Prop :=
  ∃ (hi : p.first < a.descriptors.size) (hj : p.second < b.descriptors.size),
    rejects (a.location ha ⟨p.first, hi⟩) (b.location hb ⟨p.second, hj⟩) = true

instance (a b : Features) (ha : a.Aligned) (hb : b.Aligned)
    (rejects : Point Float32 → Point Float32 → Bool) (p : Correspondence) :
    Decidable (a.Excluded b ha hb rejects p) :=
  inferInstanceAs (Decidable (∃ _, ∃ _, _ = true))

theorem SimilarityMatrix.masked_never {a b : Features} (ha : a.Aligned) (hb : b.Aligned) :
    masked (fun _ _ => false) a b ha hb = ofDescriptors a.descriptors b.descriptors := by
  unfold masked ofDescriptors
  simp only [Bool.false_eq_true, if_false]

/-- **Rejecting more pairs keeps every match that is not rejected.** The entries of the pairs that
are rejected now drop to zero, and no other entry changes. -/
theorem SimilarityMatrix.mem_correspondences_masked [ArcCosine] [ArcCosine.Lawful] {a b : Features}
    {ha : a.Aligned} {hb : b.Aligned} {t : Thresholds} {crossCheck : Bool}
    {p q : Point Float32 → Point Float32 → Bool}
    (hpq : ∀ x y, p x y = true → q x y = true) (ht : ¬t.maxRatio ≤ -infinity32)
    {c : Correspondence} (h : c ∈ (masked p a b ha hb).correspondences t crossCheck)
    (hkept : ¬a.Excluded b ha hb q c) :
    c ∈ (masked q a b ha hb).correspondences t crossCheck := by
  have hi : c.first < a.descriptors.size := (inside_of_mem_correspondences h).1
  have hj : c.second < b.descriptors.size := (inside_of_mem_correspondences h).2
  have hsame (r : Fin a.descriptors.size) (s : Fin b.descriptors.size)
      (hq : ¬q (a.location ha r) (b.location hb s) = true) :
      ¬p (a.location ha r) (b.location hb s) = true :=
    fun hp => hq (hpq _ _ hp)
  have hpair : ¬q (a.location ha ⟨c.first, hi⟩) (b.location hb ⟨c.second, hj⟩) = true :=
    fun hq => hkept ⟨hi, hj, hq⟩
  -- No feature moves, so both selections are the identity.
  refine mem_correspondences_of_fewer (.increasing ht strictMono_id)
    (.increasing ht strictMono_id) (r := ⟨c.first, hi⟩) (c := ⟨c.second, hj⟩) ?_ ?_ h
  · intro r s
    by_cases hq : q (a.location ha r) (b.location hb s) = true
    · right
      rw [if_pos hq]
      exact Int32.le_refl 0
    · left
      rw [if_neg hq, id, id, if_neg (hsame r s hq)]
      exact Int32.le_refl _
  · rw [if_neg hpair, id, id, if_neg (hsame _ _ hpair)]

theorem Options.Valid.ratio {options : Options} (h : options.Valid) :
    ¬options.thresholds.maxRatio ≤ -infinity32 :=
  not_le_neg_infinity32 (Options.valid_iff_inRange.mp h).maxRatio

section Guided

variable [ArcCosine] [ArcCosine.Lawful] {options : Options} {a b : Features} {geometry : TwoView}

theorem matchGuided_keeps_plain (hvalid : options.Valid) (ha : a.Aligned) (hb : b.Aligned)
    (hsupported : (Filter.ofGeometry geometry options.maxError).isSupported = true) :
    ∃ plain guided, matchDescriptors a.descriptors b.descriptors options = .ok plain ∧
      matchGuided a b geometry options = .ok guided ∧
      ∀ c ∈ plain, ¬a.Excluded b ha hb (Filter.ofGeometry geometry options.maxError).rejects c →
        c ∈ guided := by
  refine ⟨_, _, matchDescriptors_of_valid hvalid _ _,
    matchGuided_of_valid hvalid hsupported ha hb, fun c hc hkept => ?_⟩
  rw [← SimilarityMatrix.masked_never ha hb] at hc
  exact SimilarityMatrix.mem_correspondences_masked (fun _ _ hfalse => by cases hfalse)
    hvalid.ratio hc hkept

theorem matchGuided_keeps_smaller (hvalid : options.Valid) (ha : a.Aligned) (hb : b.Aligned)
    (hsupported : (Filter.ofGeometry geometry options.maxError).isSupported = true)
    {maxError : Float} (hpos : 0 < maxError) (hle : maxError ≤ options.maxError) :
    ∃ wide narrow, matchGuided a b geometry options = .ok wide ∧
      matchGuided a b geometry { options with maxError := maxError } = .ok narrow ∧
      ∀ c ∈ wide, ¬a.Excluded b ha hb (Filter.ofGeometry geometry maxError).rejects c →
        c ∈ narrow := by
  have hsupported' : (Filter.ofGeometry geometry maxError).isSupported = true :=
    Filter.isSupported_congr geometry maxError options.maxError ▸ hsupported
  refine ⟨_, _, matchGuided_of_valid hvalid hsupported ha hb,
    matchGuided_of_valid (hvalid.withMaxError hpos) hsupported' ha hb, fun c hc hkept => ?_⟩
  exact SimilarityMatrix.mem_correspondences_masked
    (fun _ _ hrejects => Filter.rejects_of_le hpos hle hrejects) hvalid.ratio hc hkept

/-- **Guided matching never loses a consistent match.** A match that is found without a geometry and
that the geometry's filter does not reject is found with it; more generally a match that is found
under one test is found under every stricter test that does not reject it, with and without the
cross check and for every ratio but `-∞`; in particular it survives a smaller threshold if it stays
within it. All this holds for every lawful arc cosine. -/
theorem matchGuided_keeps_consistent (hvalid : options.Valid) (ha : a.Aligned) (hb : b.Aligned) :
    (∀ geometry : TwoView,
      (geometry.configuration.isEpipolar || geometry.configuration.isHomography) = true →
      ∃ plain guided, matchDescriptors a.descriptors b.descriptors options = .ok plain ∧
        matchGuided a b geometry options = .ok guided ∧
        ∀ c ∈ plain, ¬a.Excluded b ha hb (Filter.ofGeometry geometry options.maxError).rejects c →
          c ∈ guided) ∧
    (∀ (p q : Point Float32 → Point Float32 → Bool), (∀ x y, p x y = true → q x y = true) →
      ∀ (t : Thresholds), ¬t.maxRatio ≤ -infinity32 → ∀ (crossCheck : Bool),
      ∀ c ∈ (SimilarityMatrix.masked p a b ha hb).correspondences t crossCheck,
        ¬a.Excluded b ha hb q c →
          c ∈ (SimilarityMatrix.masked q a b ha hb).correspondences t crossCheck) ∧
    (∀ geometry : TwoView,
      (geometry.configuration.isEpipolar || geometry.configuration.isHomography) = true →
      ∀ maxError : Float, 0 < maxError → maxError ≤ options.maxError →
      ∃ wide narrow, matchGuided a b geometry options = .ok wide ∧
        matchGuided a b geometry { options with maxError := maxError } = .ok narrow ∧
        ∀ c ∈ wide, ¬a.Excluded b ha hb (Filter.ofGeometry geometry maxError).rejects c →
          c ∈ narrow) := by
  refine ⟨fun geometry hmodel => ?_, fun p q hpq t ht crossCheck c hc hkept => ?_,
    fun geometry hmodel maxError hpos hle => ?_⟩
  · exact matchGuided_keeps_plain hvalid ha hb
      ((Filter.isSupported_ofGeometry geometry _).trans hmodel)
  · exact SimilarityMatrix.mem_correspondences_masked hpq ht hc hkept
  · exact matchGuided_keeps_smaller hvalid ha hb
      ((Filter.isSupported_ofGeometry geometry _).trans hmodel) hpos hle

end Guided

/-- Two features far apart whose descriptors are unlike: every bin of the first is filled, and every
other bin of the second. -/
def Features.corners : Features where
  keypoints := #[.origin, .upright 100 0]
  descriptors := #[⟨.replicate binCount 45⟩, ⟨.ofFn fun i => if i.val % 2 = 0 then 64 else 0⟩]

theorem Features.aligned_corners : Features.corners.Aligned := rfl

/-- A camera that did not move: every point stays where it is. -/
def TwoView.still : TwoView := { TwoView.unknown with configuration := .planar }

/-- The first corner is found in the plain match, under the geometry, and under it within a quarter
of the threshold. -/
theorem matchGuided_keeps_first_corner :
    ∃ plain guided narrow,
      matchDescriptors Features.corners.descriptors Features.corners.descriptors Options.standard =
        .ok plain ∧
      matchGuided .corners .corners .still Options.standard = .ok guided ∧
      matchGuided .corners .corners .still { Options.standard with maxError := 1 } = .ok narrow ∧
      ⟨0, 0⟩ ∈ plain ∧ ⟨0, 0⟩ ∈ guided ∧ ⟨0, 0⟩ ∈ narrow := by
  have hvalid : Options.standard.Valid := Options.standard_valid
  obtain ⟨hguided, -, hnarrow⟩ :=
    matchGuided_keeps_consistent hvalid Features.aligned_corners Features.aligned_corners
  obtain ⟨plain, guided, hp, hg, hkeep⟩ := hguided .still rfl
  obtain ⟨guided', narrow, hg', hn, hkeep'⟩ := hnarrow .still rfl 1 (by decide +kernel)
    (by decide +kernel)
  obtain rfl : guided = guided' := Except.ok.inj (hg.symm.trans hg')
  have hplain : ⟨0, 0⟩ ∈ plain := by
    rw [eq_of_matchDescriptors hvalid hp]
    decide +kernel
  have hfound : ⟨0, 0⟩ ∈ guided := hkeep _ hplain (by decide +kernel)
  exact ⟨plain, guided, narrow, hp, hg, hn, hplain, hfound, hkeep' _ hfound (by decide +kernel)⟩

end FeatureMatching
