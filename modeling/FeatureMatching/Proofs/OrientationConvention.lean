import Mathlib
import FeatureMatching.Proofs.MaskedEntries

/-!
# The direction of the orientation bins does not matter

A descriptor in one convention is a rearrangement of the same descriptor in the other: each cell
keeps its place and its eight orientations are listed backwards. The rearrangement is its own
inverse, and since both descriptors of a pair are rearranged alike, their dot product has the same
terms in another order (`Descriptor.dot_reverseOrientations`).

The conversion is a loop that goes through cells and orientations and writes each bin to the place
that a table names. `Descriptor.Written` says what that loop has done after `n` bins. It ends with
every bin written and none written over, because no two bins share a place.

Matching sees the descriptors through their dot products only. So every change of the descriptors
that keeps all of these, such as this one, leaves a call's outcome as it is, faults included
(`plainSearch_mapDescriptors`, `guidedSearch_mapDescriptors`).
-/

set_option autoImplicit false

namespace FeatureMatching

namespace Descriptor

/-! ## The loop -/

/-- The places of a cell's orientations in the other convention, one after the other. -/
def turnedPlaces : List Nat := [0, 7, 6, 5, 4, 3, 2, 1]

/-- Writes one bin of a cell to its place in the other convention. -/
def turnBin? (d : Descriptor) (cell : Nat) (out : Array UInt8) (k : Nat) :
    Option (Array UInt8) := do
  let place := 8 * cell + (← turnedPlaces[k]?)
  let bin ← d.bins.toArray[8 * cell + k]?
  if h : place < out.size then some (out.set place bin) else none

/-- The conversion as a loop over four rows of four cells of eight orientations. -/
def turnBins? (d : Descriptor) : Option (Array UInt8) :=
  (List.range 4).foldlM (fun out i =>
    (List.range 4).foldlM (fun out j =>
      (List.range 8).foldlM (d.turnBin? (j + 4 * i)) out) out) (.replicate binCount 0)

theorem turnedPlaces_eq : ∀ k < 8, turnedPlaces[k]? = some (opposite k) := by decide

/-- What was written when the first `n` bins were read. -/
structure Written (d : Descriptor) (n : Nat) (out : Array UInt8) : Prop where
  size : out.size = binCount
  bin : ∀ b : Fin binCount, b.val < n → out[(oppositeBin b).val]? = some (d.bins.get b)

variable {d : Descriptor}

theorem Written.start : d.Written 0 (.replicate binCount 0) where
  size := Array.size_replicate
  bin := fun _ hb => absurd hb (Nat.not_lt_zero _)

/-- One more bin. Its place differs from all earlier ones, so nothing is lost. -/
theorem Written.next {cell k : Nat} (hcell : cell < 16) (hk : k < 8) {out : Array UInt8}
    (h : d.Written (8 * cell + k) out) :
    ∃ out', d.turnBin? cell out k = some out' ∧ d.Written (8 * cell + (k + 1)) out' := by
  have hread : 8 * cell + k < binCount := show 8 * cell + k < 128 by omega
  let b : Fin binCount := ⟨8 * cell + k, hread⟩
  have hplace : 8 * cell + opposite k = (oppositeBin b).val := by
    show _ = 8 * ((8 * cell + k) / 8) + opposite ((8 * cell + k) % 8)
    rw [Nat.mul_add_div (by decide), Nat.div_eq_of_lt hk, Nat.mul_add_mod, Nat.mod_eq_of_lt hk,
      Nat.add_zero]
  have hwrite : (oppositeBin b).val < out.size := by
    rw [h.size]
    exact (oppositeBin b).isLt
  refine ⟨out.set (oppositeBin b).val (d.bins.get b), ?_, ?_, ?_⟩
  · have hbin : d.bins.toArray[8 * cell + k]? = some (d.bins.get b) := by
      rw [Array.getElem?_eq_getElem (by simpa using hread)]
      rfl
    simp only [turnBin?, turnedPlaces_eq k hk, hbin, Option.bind_eq_bind, Option.bind_some, hplace,
      hwrite, dite_true]
  · rw [Array.size_set, h.size]
  · intro b' hb'
    rw [Array.getElem?_set]
    split
    · rename_i hsame
      have hinverse := congrArg oppositeBin (Fin.ext hsame)
      rw [oppositeBin_oppositeBin, oppositeBin_oppositeBin] at hinverse
      rw [hinverse]
    · rename_i hother
      have hne : b'.val ≠ 8 * cell + k := fun heq =>
        hother (congrArg (fun b => (oppositeBin b).val) (Fin.ext heq)).symm
      exact h.bin b' (by omega)

/-- Every place is that of some bin, so when all bins were read the whole result is there. -/
theorem Written.eq_reverseOrientations {out : Array UInt8} (h : d.Written binCount out) :
    out = d.reverseOrientations.bins.toArray := by
  refine Array.ext (h.size.trans d.reverseOrientations.bins.size_toArray.symm) fun k hk _ => ?_
  let b : Fin binCount := ⟨k, h.size ▸ hk⟩
  have hbin := h.bin (oppositeBin b) (oppositeBin b).isLt
  rw [oppositeBin_oppositeBin, Array.getElem?_eq_getElem hk, Option.some.injEq] at hbin
  rw [hbin]
  simp [reverseOrientations, b, Vector.get_eq_getElem]

/-- **The loop writes every bin once** and never outside the descriptor. -/
theorem turnBins?_eq (d : Descriptor) : d.turnBins? = some d.reverseOrientations.bins.toArray := by
  have hcell {i j : Nat} (hi : i < 4) (hj : j < 4) {out : Array UInt8}
      (h : d.Written (8 * (j + 4 * i)) out) :
      ∃ out', (List.range 8).foldlM (d.turnBin? (j + 4 * i)) out = some out' ∧
        d.Written (8 * (j + 1 + 4 * i)) out' := by
    obtain ⟨out', hrun, hout'⟩ := exists_foldlM_range (n := 8)
      (fun k out => d.Written (8 * (j + 4 * i) + k) out) h
      fun k hk out hout => hout.next (by omega) hk
    exact ⟨out', hrun, by rwa [show 8 * (j + 1 + 4 * i) = 8 * (j + 4 * i) + 8 by omega]⟩
  have hrow {i : Nat} (hi : i < 4) {out : Array UInt8} (h : d.Written (8 * (4 * i)) out) :
      ∃ out', (List.range 4).foldlM (fun out j =>
          (List.range 8).foldlM (d.turnBin? (j + 4 * i)) out) out = some out' ∧
        d.Written (8 * (4 * (i + 1))) out' := by
    obtain ⟨out', hrun, hout'⟩ := exists_foldlM_range (n := 4)
      (fun j out => d.Written (8 * (j + 4 * i)) out) (by rwa [Nat.zero_add])
      fun j hj out hout => hcell hi hj hout
    exact ⟨out', hrun, by rwa [show 8 * (4 * (i + 1)) = 8 * (4 + 4 * i) by omega]⟩
  obtain ⟨out, hrun, hout⟩ := exists_foldlM_range (n := 4)
    (fun i out => d.Written (8 * (4 * i)) out) Written.start fun i hi out hout => hrow hi hout
  rw [← Written.eq_reverseOrientations hout]
  exact hrun

/-! ## The dot product -/

@[simp] theorem reverseOrientations_reverseOrientations (d : Descriptor) :
    d.reverseOrientations.reverseOrientations = d := by
  obtain ⟨bins⟩ := d
  simp [reverseOrientations]

/-- **Rearranging both descriptors alike keeps their dot product.** -/
theorem dot_reverseOrientations (a b : Descriptor) :
    a.reverseOrientations.dot b.reverseOrientations = a.dot b := by
  have hget (d : Descriptor) (k : Fin binCount) :
      d.reverseOrientations.bins.get k = d.bins.get (oppositeBin k) :=
    bins_reverseOrientations d k
  rw [dot_eq_ofNat, dot_eq_ofNat]
  simp only [hget]
  exact congrArg Int32.ofNat
    (Equiv.sum_comp (Function.Involutive.toPerm oppositeBin oppositeBin_oppositeBin)
      fun k => (a.bins.get k).toNat * (b.bins.get k).toNat)

end Descriptor

/-! ## Changes that keep all dot products -/

/-- The features with every descriptor changed by the same function. -/
def Features.mapDescriptors (g : Descriptor → Descriptor) (f : Features) : Features :=
  { f with descriptors := f.descriptors.map g }

theorem Features.aligned_mapDescriptors (g : Descriptor → Descriptor) (f : Features) :
    (f.mapDescriptors g).Aligned ↔ f.Aligned := by
  unfold Aligned mapDescriptors
  rw [Array.size_map]

namespace SimilarityMatrix

/-- Two matrices of one shape with the same entries. -/
theorem ofFn_congr {rows cols rows' cols' : Nat} {f : Fin rows → Fin cols → Int32}
    {f' : Fin rows' → Fin cols' → Int32} (hrows : rows = rows') (hcols : cols = cols')
    (h : ∀ r c, f r c = f' (r.cast hrows) (c.cast hcols)) : ofFn f = ofFn f' := by
  subst hrows
  subst hcols
  exact congrArg ofFn (funext fun r => funext fun c => h r c)

variable {g : Descriptor → Descriptor} (hg : ∀ a b, (g a).dot (g b) = a.dot b)
include hg

theorem ofDescriptors_map (a b : Array Descriptor) :
    ofDescriptors (a.map g) (b.map g) = ofDescriptors a b := by
  refine ofFn_congr Array.size_map Array.size_map fun r c => ?_
  simp only [Fin.getElem_fin, Array.getElem_map, hg, Fin.val_cast]

theorem masked_mapDescriptors (rejects : Point Float32 → Point Float32 → Bool) (a b : Features)
    (ha : a.Aligned) (hb : b.Aligned) :
    masked rejects (a.mapDescriptors g) (b.mapDescriptors g) ((a.aligned_mapDescriptors g).mpr ha)
      ((b.aligned_mapDescriptors g).mpr hb) = masked rejects a b ha hb := by
  have hentry (f : Features) (i : Fin (f.mapDescriptors g).descriptors.size) :
      (f.mapDescriptors g).descriptors[i] = g f.descriptors[i.cast Array.size_map] :=
    Array.getElem_map g i.isLt
  refine ofFn_congr Array.size_map Array.size_map fun r c => ?_
  rw [hentry, hentry, hg]
  rfl

theorem ofFeatures_mapDescriptors (rejects : Point Float32 → Point Float32 → Bool)
    (a b : Features) :
    ofFeatures rejects (a.mapDescriptors g) (b.mapDescriptors g) = ofFeatures rejects a b := by
  have hfault (f : Features) (side : Side) :
      Fault.misaligned side (f.mapDescriptors g).keypoints.size
          (f.mapDescriptors g).descriptors.size =
        .misaligned side f.keypoints.size f.descriptors.size := by
    rw [Features.mapDescriptors, Array.size_map]
  unfold ofFeatures
  by_cases ha : a.Aligned
  · by_cases hb : b.Aligned
    · simp only [Features.aligned_mapDescriptors, ha, hb, dite_true, masked_mapDescriptors hg]
    · simp only [Features.aligned_mapDescriptors, ha, hb, dite_true, dite_false, hfault]
  · simp only [Features.aligned_mapDescriptors, ha, dite_false, hfault]

end SimilarityMatrix

section Calls

variable [ArcCosine] {g : Descriptor → Descriptor} (hg : ∀ a b, (g a).dot (g b) = a.dot b)
include hg

theorem plainSearch_mapDescriptors (a b : Array Descriptor) (options : Options) :
    plainSearch (a.map g) (b.map g) options = plainSearch a b options := by
  unfold plainSearch
  rw [SimilarityMatrix.ofDescriptors_map hg]

theorem guidedSearch_mapDescriptors (a b : Features) (geometry : TwoView) (options : Options) :
    guidedSearch (a.mapDescriptors g) (b.mapDescriptors g) geometry options =
      guidedSearch a b geometry options := by
  unfold guidedSearch
  simp only [SimilarityMatrix.ofFeatures_mapDescriptors hg]

end Calls

/-! ## The result -/

/-- **The orientation convention does not change a match.** The conversion writes all 128 bins and
is its own inverse; it keeps the dot product of any two descriptors. So for all images, aligned or
not, and for every geometry and options value, valid or not, converting the descriptors of both
images leaves the outcome of both calls unchanged. -/
theorem convention_does_not_change_matches [ArcCosine] :
    (∀ d : Descriptor, d.turnBins? = some d.reverseOrientations.bins.toArray ∧
      d.reverseOrientations.reverseOrientations = d) ∧
    (∀ a b : Descriptor, a.reverseOrientations.dot b.reverseOrientations = a.dot b) ∧
    (∀ (a b : Array Descriptor) (options : Options),
      matchDescriptors (a.map Descriptor.reverseOrientations)
        (b.map Descriptor.reverseOrientations) options = matchDescriptors a b options) ∧
    ∀ (a b : Features) (geometry : TwoView) (options : Options),
      matchGuided a.reverseOrientations b.reverseOrientations geometry options =
        matchGuided a b geometry options := by
  refine ⟨?_, Descriptor.dot_reverseOrientations, ?_, ?_⟩
  · intro d
    exact ⟨d.turnBins?_eq, d.reverseOrientations_reverseOrientations⟩
  · intro a b options
    unfold matchDescriptors
    rw [plainSearch_mapDescriptors Descriptor.dot_reverseOrientations]
  · intro a b geometry options
    have hsearch := guidedSearch_mapDescriptors Descriptor.dot_reverseOrientations a b geometry
      options
    exact congrArg (Except.map fun found => (found.map Search.found).getD []) hsearch

end FeatureMatching
