/-!
# Descriptors

A descriptor summarises the image around a feature: sixteen spatial cells, each a histogram of
gradient orientations with eight bins, quantized to bytes. Two descriptors are compared by their
**dot product**, an integer; for descriptors that were scaled to length 512 before rounding it is
close to `512² · cos θ`, where `θ` is the angle between them.
-/

set_option autoImplicit false

namespace FeatureMatching

/-- The number of histogram bins: sixteen cells of eight orientations. -/
abbrev binCount : Nat := 128

/-- A quantized descriptor. -/
structure Descriptor where
  /-- The bins, cell after cell. -/
  bins : Vector UInt8 binCount
deriving DecidableEq

namespace Descriptor

/-- A bin as a signed word, the type in which products are summed. -/
def wordOf (bin : UInt8) : Int32 := .ofNat bin.toNat

/-- The dot product, summed bin after bin in 32 bit words. The largest possible sum is
`128 · 255²`, which such a word holds. -/
def dot (a b : Descriptor) : Int32 :=
  (List.zipWith (fun x y => wordOf x * wordOf y) a.bins.toList b.bins.toList).foldl (· + ·) 0

/-! ## The direction of the orientation bins

There are two conventions for the order of the eight orientations within a cell: they share the
first one and go round in opposite directions. -/

/-- The place in its cell of the orientation that the other convention puts at place `k`. -/
def opposite (k : Nat) : Nat := (8 - k) % 8

/-- The bin index that the other convention uses for the same cell and orientation. -/
def oppositeBin (i : Fin binCount) : Fin binCount :=
  ⟨8 * (i / 8) + opposite (i % 8), by
    have hopposite : opposite (i % 8) < 8 := Nat.mod_lt _ (by decide)
    have hi : i.val < 128 := i.isLt
    show 8 * (i.val / 8) + opposite (i.val % 8) < 128
    omega⟩

/-- The same descriptor in the other convention. -/
def reverseOrientations (d : Descriptor) : Descriptor :=
  ⟨.ofFn fun i => d.bins[oppositeBin i]⟩

@[simp] theorem oppositeBin_oppositeBin (i : Fin binCount) : oppositeBin (oppositeBin i) = i := by
  have hi : i.val < 128 := i.isLt
  ext
  simp only [oppositeBin, opposite]
  omega

@[simp] theorem bins_reverseOrientations (d : Descriptor) (i : Fin binCount) :
    d.reverseOrientations.bins[i] = d.bins[oppositeBin i] := by
  simp [reverseOrientations]

end Descriptor

end FeatureMatching
