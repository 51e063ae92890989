import Mathlib
import FeatureMatching.Json.Records
import FeatureMatching.Proofs.Json.Fields

/-!
# Stored values read back

What the encoders write, the decoders read back, bit for bit: equality of floats is equality of
their bits here, so the two zeros are different values. An object may have its members in any order
and others among them, and the array of the values will do as well; a geometry may hold its inliers
in either form. All of these trees give the decoder the same fields (`Presents.fields?_of_all`), so
each kind of record is decoded once, in the `_of_form` lemmas.

The exception are numbers that JSON does not have. An infinity or a NaN is written as null, which
no number is read from, and nothing is read from a record with such a field.

Options are the one record with optional fields. A tree with some of them is read as the standard
options with exactly those changed (`decodeOptions_of_part`); a whole record is the special case
with all of them.
-/

set_option autoImplicit false

namespace FeatureMatching

/-! ## Values without infinities and NaNs -/

/-- The numbers of a keypoint. -/
def Keypoint.numbers (k : Keypoint) : List Float32 := [k.x, k.y, k.a11, k.a12, k.a21, k.a22]

def Keypoint.Finite (k : Keypoint) : Prop := ∀ x ∈ k.numbers, x.isFinite = true

def Matrix3.Finite (m : Matrix3 Float) : Prop := ∀ x ∈ m.columns, x.isFinite = true

def TwoView.Finite (g : TwoView) : Prop := g.fundamental.Finite ∧ g.homography.Finite

def Options.Finite (o : Options) : Prop :=
  (∀ x ∈ [o.maxRatio, o.maxDistance], x.isFinite = true) ∧
    ∀ x ∈ [o.maxError, o.confidence, o.minInlierRatio], x.isFinite = true

/-- The standard options, with the named settings taken from others. -/
def Options.onlyAt (o : Options) (names : List String) : Options where
  maxRatio := if "max_ratio" ∈ names then o.maxRatio else standard.maxRatio
  maxDistance := if "max_distance" ∈ names then o.maxDistance else standard.maxDistance
  crossCheck := if "cross_check" ∈ names then o.crossCheck else standard.crossCheck
  maxNumMatches := if "max_num_matches" ∈ names then o.maxNumMatches else standard.maxNumMatches
  maxError := if "max_error" ∈ names then o.maxError else standard.maxError
  confidence := if "confidence" ∈ names then o.confidence else standard.confidence
  minNumTrials := if "min_num_trials" ∈ names then o.minNumTrials else standard.minNumTrials
  maxNumTrials := if "max_num_trials" ∈ names then o.maxNumTrials else standard.maxNumTrials
  minInlierRatio := if "min_inlier_ratio" ∈ names then o.minInlierRatio else standard.minInlierRatio
  minNumInliers := if "min_num_inliers" ∈ names then o.minNumInliers else standard.minNumInliers
  multipleModels := if "multiple_models" ∈ names then o.multipleModels else standard.multipleModels
  guidedMatching := if "guided_matching" ∈ names then o.guidedMatching else standard.guidedMatching

namespace Json

open Value Fields

/-! ## Names -/

theorem decodeConfiguration_encode (c : Configuration) :
    decodeConfiguration (encodeConfiguration c) = some c :=
  c.ofName?_name

theorem decodeNormalization_encode (n : Normalization) :
    decodeNormalization (encodeNormalization n) = some n :=
  n.ofName?_name

/-! ## Correspondences -/

def CorrespondenceForm (c : Correspondence) : Value → Prop :=
  Presents correspondenceFields (encodeCorrespondence c).members

theorem decodeCorrespondence_of_form {c : Correspondence} {v : Value}
    (h : CorrespondenceForm c v) : decodeCorrespondence v = some c := by
  obtain ⟨fields, hfields, hall⟩ := h.fields?_of_all rfl (by decide)
  simp only [encodeCorrespondence, members, List.forall_mem_cons] at hall
  obtain ⟨hfirst, hsecond, -⟩ := hall
  simp [decodeCorrespondence, hfields, required_of_some hfirst, required_of_some hsecond]

theorem decodeCorrespondence_of_incomplete {v : Value} (h : Incomplete correspondenceFields v) :
    decodeCorrespondence v = none := by
  obtain ⟨fields, hfields, name, hname, hmissing⟩ := h.fields?_eq (by decide)
  simp only [correspondenceFields, List.mem_cons, List.not_mem_nil, or_false] at hname
  rcases hname with rfl | rfl <;> simp [decodeCorrespondence, hfields, required_of_none hmissing]

/-! ## Keypoints -/

def KeypointForm (k : Keypoint) : Value → Prop :=
  Presents keypointFields (encodeKeypoint k).members

section Keypoint

variable {k : Keypoint} {v : Value}

theorem decodeKeypoint_of_form (h : KeypointForm k v) (hfinite : k.Finite) :
    decodeKeypoint v = some k := by
  obtain ⟨fields, hfields, hall⟩ := h.fields?_of_all rfl (by decide)
  simp only [encodeKeypoint, members, List.forall_mem_cons] at hall
  obtain ⟨hx, hy, h11, h12, h21, h22, -⟩ := hall
  simp only [Keypoint.Finite, Keypoint.numbers, List.forall_mem_cons] at hfinite
  simp [decodeKeypoint, hfields, Fields.required, hx, hy, h11, h12, h21, h22,
    toFloat32?_ofFloat32, hfinite]

/-- A keypoint is not read if one of its fields is not. -/
theorem decodeKeypoint_eq_none {fields : Fields} (hfields : fields? keypointFields v = some fields)
    (h : ∃ name ∈ keypointFields, fields.required name toFloat32? = none) :
    decodeKeypoint v = none := by
  obtain ⟨name, hname, hnone⟩ := h
  simp only [keypointFields, List.mem_cons, List.not_mem_nil, or_false] at hname
  rcases hname with rfl | rfl | rfl | rfl | rfl | rfl <;> simp [decodeKeypoint, hfields, hnone]

theorem decodeKeypoint_of_incomplete (h : Incomplete keypointFields v) :
    decodeKeypoint v = none := by
  obtain ⟨fields, hfields, name, hname, hmissing⟩ := h.fields?_eq (by decide)
  exact decodeKeypoint_eq_none hfields ⟨name, hname, required_of_none hmissing⟩

theorem decodeKeypoint_of_infinite (h : KeypointForm k v) (hinfinite : ¬k.Finite) :
    decodeKeypoint v = none := by
  obtain ⟨fields, hfields, hall⟩ := h.fields?_of_all rfl (by decide)
  simp only [Keypoint.Finite, not_forall] at hinfinite
  obtain ⟨x, hx, hne⟩ := hinfinite
  have hvalue : ofFloat32 x ∈ (encodeKeypoint k).members.map Prod.snd :=
    List.mem_map_of_mem (f := ofFloat32) hx
  obtain ⟨⟨name, w⟩, hmember, rfl : w = _⟩ := List.mem_map.mp hvalue
  have hname : name ∈ keypointFields := List.mem_map_of_mem (f := Prod.fst) hmember
  refine decodeKeypoint_eq_none hfields ⟨name, hname, ?_⟩
  rw [required_of_some (hall _ hmember), toFloat32?_ofFloat32, if_neg hne]

end Keypoint

/-! ## Geometries -/

section Matrix

variable {m : Matrix3 Float}

theorem decodeMatrix_encodeMatrix (h : m.Finite) : decodeMatrix (encodeMatrix m) = some m := by
  have hread : (encodeMatrix m).toList? toFloat? = some m.columns := by
    refine toList?_of_forall₂ (List.forall₂_map_right_iff.mpr ?_)
    refine List.forall₂_same.mpr fun x hx => ?_
    rw [toFloat?_ofFloat, if_pos (h x hx)]
  rw [decodeMatrix, hread]
  exact m.ofColumns?_columns

theorem decodeMatrix_of_infinite (h : ¬m.Finite) : decodeMatrix (encodeMatrix m) = none := by
  have hread : (encodeMatrix m).toList? toFloat? = none := by
    simp only [Matrix3.Finite, not_forall] at h
    obtain ⟨x, hx, hne⟩ := h
    exact toList?_eq_none ⟨_, List.mem_map_of_mem hx, by rw [toFloat?_ofFloat, if_neg hne]⟩
  rw [decodeMatrix, hread]
  rfl

end Matrix

/-- The trees of a geometry; its inliers may be in any form as well. -/
def GeometryForm (g : TwoView) (v : Value) : Prop :=
  ∃ inliers, List.Forall₂ CorrespondenceForm g.inliers inliers ∧
    Presents geometryFields
      [("config", encodeConfiguration g.configuration), ("f", encodeMatrix g.fundamental),
       ("h", encodeMatrix g.homography), ("inlier_matches", .array inliers)] v

section Geometry

variable {g : TwoView} {v : Value}

theorem decodeGeometry_of_form (h : GeometryForm g v) (hfinite : g.Finite) :
    decodeGeometry v = some g := by
  obtain ⟨inliers, hinliers, hpresents⟩ := h
  obtain ⟨fields, hfields, hall⟩ := hpresents.fields?_of_all rfl (by decide)
  simp only [List.forall_mem_cons] at hall
  obtain ⟨hconfiguration, hfundamental, hhomography, hlist, -⟩ := hall
  have hread : (Value.array inliers).toList? decodeCorrespondence = some g.inliers :=
    toList?_of_forall₂ (hinliers.imp fun _ _ => decodeCorrespondence_of_form)
  simp [decodeGeometry, hfields, Fields.required, hconfiguration, hfundamental, hhomography, hlist,
    hread, decodeConfiguration_encode, decodeMatrix_encodeMatrix hfinite.1,
    decodeMatrix_encodeMatrix hfinite.2]

theorem decodeGeometry_of_infinite (h : GeometryForm g v) (hinfinite : ¬g.Finite) :
    decodeGeometry v = none := by
  obtain ⟨inliers, hinliers, hpresents⟩ := h
  obtain ⟨fields, hfields, hall⟩ := hpresents.fields?_of_all rfl (by decide)
  simp only [List.forall_mem_cons] at hall
  obtain ⟨hconfiguration, hfundamental, hhomography, hlist, -⟩ := hall
  rcases not_and_or.mp hinfinite with hmatrix | hmatrix <;>
    simp [decodeGeometry, hfields, Fields.required, hfundamental, hhomography,
      decodeMatrix_of_infinite hmatrix]

theorem decodeGeometry_of_incomplete (h : Incomplete geometryFields v) :
    decodeGeometry v = none := by
  obtain ⟨fields, hfields, name, hname, hmissing⟩ := h.fields?_eq (by decide)
  simp only [geometryFields, List.mem_cons, List.not_mem_nil, or_false] at hname
  rcases hname with rfl | rfl | rfl | rfl <;>
    simp [decodeGeometry, hfields, Fields.required, hmissing]

end Geometry

/-! ## Options -/

def OptionsForm (o : Options) : Value → Prop := Presents optionsFields (encodeOptions o).members

section Options

variable {o : Options} {v : Value}

theorem decodeOptions_of_part (hfinite : o.Finite) {present : List (String × Value)}
    (hpart : present.Sublist (encodeOptions o).members) (h : Presents optionsFields present v) :
    decodeOptions v = some (o.onlyAt (present.map Prod.fst)) := by
  obtain ⟨fields, hfields, hall⟩ := h.fields?_of_sublist hpart rfl (by decide)
  simp only [encodeOptions, members, List.forall_mem_cons] at hall
  obtain ⟨hratio, hdistance, hcheck, hmatches, herror, hconfidence, hleast, hlargest,
    hinlierRatio, hinliers, hmodels, hguided, -⟩ := hall
  have hread32 {x : Float32} (hx : x.isFinite = true) : (ofFloat32 x).toFloat32? = some x :=
    (toFloat32?_ofFloat32 x).trans (if_pos hx)
  have hread64 {x : Float} (hx : x.isFinite = true) : (ofFloat x).toFloat? = some x :=
    (toFloat?_ofFloat x).trans (if_pos hx)
  simp only [Options.Finite, List.forall_mem_cons] at hfinite
  obtain ⟨⟨fratio, fdistance, -⟩, ferror, fconfidence, finlierRatio, -⟩ := hfinite
  rw [decodeOptions, hfields, Option.bind_eq_bind, Option.bind_some]
  dsimp only
  rw [optional_of_ite hratio (hread32 fratio), optional_of_ite hdistance (hread32 fdistance),
    optional_of_ite hcheck (toBool?_bool _), optional_of_ite hmatches (toNat?_ofNat _),
    optional_of_ite herror (hread64 ferror), optional_of_ite hconfidence (hread64 fconfidence),
    optional_of_ite hleast (toNat?_ofNat _), optional_of_ite hlargest (toNat?_ofNat _),
    optional_of_ite hinlierRatio (hread64 finlierRatio), optional_of_ite hinliers (toNat?_ofNat _),
    optional_of_ite hmodels (toBool?_bool _), optional_of_ite hguided (toBool?_bool _)]
  rfl

theorem onlyAt_all (o : Options) : o.onlyAt optionsFields = o := by
  simp [Options.onlyAt, optionsFields]

theorem decodeOptions_of_form (h : OptionsForm o v) (hfinite : o.Finite) :
    decodeOptions v = some o := by
  have hdecode := decodeOptions_of_part hfinite (List.Sublist.refl _) h
  rwa [show (encodeOptions o).members.map Prod.fst = optionsFields from rfl, onlyAt_all] at hdecode

/-- Options are read only if each of their numbers with a fraction is. -/
theorem reads_of_decodeOptions {fields : Fields} (hfields : fields? optionsFields v = some fields)
    (h : decodeOptions v = some o) :
    (∃ x, fields.optional "max_ratio" toFloat32? Options.standard.maxRatio = some x) ∧
    (∃ x, fields.optional "max_distance" toFloat32? Options.standard.maxDistance = some x) ∧
    (∃ x, fields.optional "max_error" toFloat? Options.standard.maxError = some x) ∧
    (∃ x, fields.optional "confidence" toFloat? Options.standard.confidence = some x) ∧
    ∃ x, fields.optional "min_inlier_ratio" toFloat? Options.standard.minInlierRatio = some x := by
  rw [decodeOptions, hfields, Option.bind_eq_bind, Option.bind_some] at h
  obtain ⟨maxRatio, hratio, h⟩ := Option.bind_eq_some_iff.mp h
  obtain ⟨maxDistance, hdistance, h⟩ := Option.bind_eq_some_iff.mp h
  obtain ⟨_, -, h⟩ := Option.bind_eq_some_iff.mp h
  obtain ⟨_, -, h⟩ := Option.bind_eq_some_iff.mp h
  obtain ⟨maxError, herror, h⟩ := Option.bind_eq_some_iff.mp h
  obtain ⟨confidence, hconfidence, h⟩ := Option.bind_eq_some_iff.mp h
  obtain ⟨_, -, h⟩ := Option.bind_eq_some_iff.mp h
  obtain ⟨_, -, h⟩ := Option.bind_eq_some_iff.mp h
  obtain ⟨minInlierRatio, hinlierRatio, -⟩ := Option.bind_eq_some_iff.mp h
  exact ⟨⟨_, hratio⟩, ⟨_, hdistance⟩, ⟨_, herror⟩, ⟨_, hconfidence⟩, ⟨_, hinlierRatio⟩⟩

theorem decodeOptions_of_infinite (h : OptionsForm o v) (hinfinite : ¬o.Finite) :
    decodeOptions v = none := by
  obtain ⟨fields, hfields, hall⟩ := h.fields?_of_all rfl (by decide)
  simp only [encodeOptions, members, List.forall_mem_cons] at hall
  obtain ⟨hratio, hdistance, -, -, herror, hconfidence, -, -, hinlierRatio, -⟩ := hall
  cases hdecode : decodeOptions v with
  | none => rfl
  | some o' =>
    obtain ⟨⟨_, h₁⟩, ⟨_, h₂⟩, ⟨_, h₃⟩, ⟨_, h₄⟩, ⟨_, h₅⟩⟩ := reads_of_decodeOptions hfields hdecode
    refine absurd ⟨?_, ?_⟩ hinfinite
    · rw [optional_of_some hratio] at h₁
      rw [optional_of_some hdistance] at h₂
      simp [isFinite_of_toFloat32? h₁, isFinite_of_toFloat32? h₂]
    · rw [optional_of_some herror] at h₃
      rw [optional_of_some hconfidence] at h₄
      rw [optional_of_some hinlierRatio] at h₅
      simp [isFinite_of_toFloat? h₃, isFinite_of_toFloat? h₄, isFinite_of_toFloat? h₅]

end Options

/-! ## The result -/

/-- The encoder writes one of the trees of a value. The decoder reads each tree of a finite value as
that value, and fails on each tree of a value that is not finite. -/
structure RoundTrip {α : Type} (encode : α → Value) (decode : Value → Option α)
    (Form : α → Value → Prop) (Finite : α → Prop) : Prop where
  own : ∀ x, Form x (encode x)
  reads : ∀ x v, Form x v → Finite x → decode v = some x
  fails : ∀ x v, Form x v → ¬Finite x → decode v = none

theorem geometryForm_encode (g : TwoView) : GeometryForm g (encodeGeometry g) := by
  refine ⟨g.inliers.map encodeCorrespondence, ?_, Presents.self _ _⟩
  exact List.forall₂_map_right_iff.mpr (List.forall₂_same.mpr fun c _ => Presents.self _ _)

/-- **What is stored is read back.** Every kind of value is read from what is written for it and
from every other tree of it, unless it has a number that is not finite: then it is read from none of
them. Options are read from any part of their fields, the rest being standard; the other records are
not read if a field is missing. -/
theorem stored_values_read_back :
    RoundTrip encodeConfiguration decodeConfiguration (fun c v => v = encodeConfiguration c)
      (fun _ => True) ∧
    RoundTrip encodeNormalization decodeNormalization (fun n v => v = encodeNormalization n)
      (fun _ => True) ∧
    RoundTrip encodeCorrespondence decodeCorrespondence CorrespondenceForm (fun _ => True) ∧
    RoundTrip encodeKeypoint decodeKeypoint KeypointForm Keypoint.Finite ∧
    RoundTrip encodeGeometry decodeGeometry GeometryForm TwoView.Finite ∧
    RoundTrip encodeOptions decodeOptions OptionsForm Options.Finite ∧
    (∀ o : Options, o.Finite → ∀ present, present.Sublist (encodeOptions o).members →
      ∀ v, Presents optionsFields present v →
        decodeOptions v = some (o.onlyAt (present.map Prod.fst))) ∧
    (∀ v, Incomplete correspondenceFields v → decodeCorrespondence v = none) ∧
    (∀ v, Incomplete keypointFields v → decodeKeypoint v = none) ∧
    ∀ v, Incomplete geometryFields v → decodeGeometry v = none := by
  refine ⟨?_, ?_, ?_, ?_, ?_, ?_, fun o hfinite present hpart v =>
    decodeOptions_of_part hfinite hpart, fun v => decodeCorrespondence_of_incomplete,
    fun v => decodeKeypoint_of_incomplete, fun v => decodeGeometry_of_incomplete⟩
  · refine ⟨fun c => rfl, ?_, fun c v _ h => absurd trivial h⟩
    rintro c _ rfl -
    exact decodeConfiguration_encode c
  · refine ⟨fun n => rfl, ?_, fun n v _ h => absurd trivial h⟩
    rintro n _ rfl -
    exact decodeNormalization_encode n
  · exact ⟨fun c => Presents.self _ _, fun c v h _ => decodeCorrespondence_of_form h,
      fun c v _ h => absurd trivial h⟩
  · exact ⟨fun k => Presents.self _ _, fun k v => decodeKeypoint_of_form,
      fun k v => decodeKeypoint_of_infinite⟩
  · exact ⟨geometryForm_encode, fun g v => decodeGeometry_of_form,
      fun g v => decodeGeometry_of_infinite⟩
  · exact ⟨fun o => Presents.self _ _, fun o v => decodeOptions_of_form,
      fun o v => decodeOptions_of_infinite⟩

/-- A keypoint on the left border, on the negative side of zero. -/
def leftBorder : Keypoint := .upright (-0) 1.5

/-- A shift of the image by 4 to the right and 7 down, with one correspondence. -/
def shifted : TwoView where
  configuration := .planarOrPanoramic
  fundamental := ⟨0, 0, 0, 0, 0, -1, 0, 1, 0⟩
  homography := ⟨1, 0, 4, 0, 1, 7, 0, 0, 1⟩
  inliers := [⟨3, 5⟩]

/-- What is stored for the shift; the columns of its matrices follow each other. -/
def storedShift : Value :=
  .object
    [("config", .string "PlanarOrPanoramic"),
     ("f", .array ([0, 0, 0, 0, 0, 1, 0, -1, 0].map ofFloat)),
     ("h", .array ([1, 0, 0, 0, 1, 0, 4, 7, 1].map ofFloat)),
     ("inlier_matches", .array [.object [("idx1", ofNat 3), ("idx2", ofNat 5)]])]

/-- The keypoint is read from the array of its numbers with its negative zero, but not from one that
is infinitely far; options are read from two of their settings in the wrong order, with a remark in
between. The shift is written as the tree above and read back from it, and a normalization from its
name. -/
theorem stored_values_read_back_left_border :
    decodeKeypoint (.array (leftBorder.numbers.map ofFloat32)) = some leftBorder ∧
    leftBorder.x ≠ 0 ∧
    decodeKeypoint (encodeKeypoint (.upright Numeric.infinity32 0)) = none ∧
    decodeKeypoint (.object [("x", ofFloat32 0)]) = none ∧
    decodeOptions (.object [("confidence", ofFloat 0.5), ("remark", .null),
        ("max_ratio", ofFloat32 0.25)]) =
      some { Options.standard with maxRatio := 0.25, confidence := 0.5 } ∧
    encodeGeometry shifted = storedShift ∧
    decodeGeometry storedShift = some shifted ∧
    decodeConfiguration (.string "Watermark") = some .watermark ∧
    decodeNormalization (.string "L1Root") = some .l1Root := by
  obtain ⟨hconfiguration, hnormalization, -, hkeypoint, hgeometry, -, hpart, -, hincomplete, -⟩ :=
    stored_values_read_back
  refine ⟨?_, by decide +kernel, ?_, ?_, ?_, rfl, ?_, hconfiguration.reads _ _ rfl trivial,
    hnormalization.reads _ _ rfl trivial⟩
  · refine hkeypoint.reads _ _ (.array _ (by decide) rfl) ?_
    unfold Keypoint.Finite
    decide +kernel
  · refine hkeypoint.fails _ _ (hkeypoint.own _) ?_
    unfold Keypoint.Finite
    decide +kernel
  · exact hincomplete _ (.object _ "y" (by decide) (by simp))
  · have hfinite : { Options.standard with maxRatio := 0.25, confidence := 0.5 }.Finite := by
      unfold Options.Finite
      decide +kernel
    have hsublist : [("max_ratio", ofFloat32 0.25), ("confidence", ofFloat 0.5)].Sublist
        (encodeOptions { Options.standard with maxRatio := 0.25, confidence := 0.5 }).members :=
      .cons_cons _ (.cons _ (.cons _ (.cons _ (.cons _ (.cons_cons _ (List.nil_sublist _))))))
    refine (hpart _ hfinite _ hsublist _ (.object _ [("remark", .null)] ?_ ?_)).trans ?_
    · exact (List.perm_append_comm : ([("confidence", ofFloat 0.5), ("remark", .null)] ++
        [("max_ratio", ofFloat32 0.25)]).Perm _)
    · simp [optionsFields]
    · simp [Options.onlyAt]
  · refine hgeometry.reads shifted storedShift (hgeometry.own shifted) ?_
    unfold TwoView.Finite Matrix3.Finite
    decide +kernel

end Json

end FeatureMatching
