import Mathlib
import FeatureMatching.Proofs.AngleOrder
import FeatureMatching.Proofs.MaskedEntries

/-!
# Similarities are exact

Matching orders the columns of a row by integers and tests them by angles. The two orders agree
because nothing is lost in between. A similarity is a sum of 128 products of bytes; no partial sum
is above `128 * 255 * 255`, so a word holds each (`Descriptor.toInt_partialDot_mem`). That bound is
below `2 ^ 24`, so the conversion to binary32 is exact, and the quotient by `512 ^ 2` only moves the
exponent (`value32_ofInteger32`, `value32_quotient`). What the arc cosine is given is therefore the
exact cosine, strictly increasing in the similarity up to `512 ^ 2` and 1 from there on
(`cosineOf_lt_cosineOf`, `cosineOf_of_full`).
-/

set_option autoImplicit false

namespace FeatureMatching

open Numeric

/-! ## Products and sums in words -/

namespace Descriptor

/-- The product of two bins does not wrap. -/
theorem toInt_wordOf_mul (x y : UInt8) :
    (wordOf x * wordOf y).toInt = (x.toNat : Int) * y.toNat := by
  have hproduct := product_le x y
  have hmax : maxProduct < 2 ^ 31 := by decide
  rw [wordOf, wordOf, ← Int32.ofNat_mul, Int32.toInt_ofNat_of_lt (by omega), Int.natCast_mul]

theorem toInt_wordOf_mul_mem (x y : UInt8) :
    0 ≤ (wordOf x * wordOf y).toInt ∧ (wordOf x * wordOf y).toInt ≤ 128 * 255 * 255 := by
  have hproduct := product_le x y
  have hmax : maxProduct ≤ 128 * 255 * 255 := by decide
  rw [toInt_wordOf_mul, ← Int.natCast_mul]
  omega

theorem toInt_partialDot_mem (a b : Descriptor) {k : Nat} (hk : k ≤ binCount) :
    0 ≤ (a.partialDot b k).toInt ∧ (a.partialDot b k).toInt ≤ 128 * 255 * 255 := by
  have hle := sum_products_le a b hk
  rw [toInt_partialDot a b hk]
  constructor
  · exact Finset.sum_nonneg fun i _ => mul_nonneg (Int.natCast_nonneg _) (Int.natCast_nonneg _)
  · exact_mod_cast hle

end Descriptor

/-! ## Conversion and quotient -/

section Cosine

variable {s t : Int32}

/-- **The conversion is exact** below `2 ^ 24`. -/
theorem value32_ofInteger32 (hlow : 0 ≤ s.toInt) (hhigh : s.toInt < 2 ^ 24) :
    value32 (ofInteger32 s.toInt) = s.toInt := by
  rw [value32_of_position (isFinite_ofInteger32 s) (position32_ofInteger32 s.toInt)]
  refine roundValue_of_lt (e := 0) (by exact_mod_cast hlow) ⟨s.toInt, by simp⟩ ?_ (by decide)
  show (s.toInt : ℚ) < 2 ^ (24 : Int)
  exact_mod_cast hhigh

/-- **The quotient is exact**: dividing by a power of two keeps the mantissa. -/
theorem value32_quotient (hlow : 0 ≤ s.toInt) (hhigh : s.toInt < 2 ^ 24) :
    (ofInteger32 s.toInt / fullSimilarity).isFinite = true ∧
      value32 (ofInteger32 s.toInt / fullSimilarity) = s.toInt / 512 ^ 2 := by
  have hlow' : (0 : ℚ) ≤ s.toInt := by exact_mod_cast hlow
  have hhigh' : (s.toInt : ℚ) < 2 ^ 24 := by exact_mod_cast hhigh
  have hbelow : (s.toInt : ℚ) / 2 ^ 18 < 2 ^ (6 : Int) := by
    rw [div_lt_iff₀ (by norm_num)]
    norm_num at hhigh' ⊢
    exact hhigh'
  have hnonneg : (0 : ℚ) ≤ s.toInt / 2 ^ 18 := by positivity
  have hquotient := position32_quotient s
  rw [value32_ofInteger32 hlow hhigh] at hquotient
  have hfinite : (ofInteger32 s.toInt / fullSimilarity).isFinite = true :=
    isFinite_of_storedAt32 (e := 6) ⟨hquotient.1, fits_unpack32 _, hquotient.2⟩
      (by rw [abs_of_nonneg hnonneg]; exact hbelow.le) (by decide)
  refine ⟨hfinite, ?_⟩
  rw [value32_of_position hfinite hquotient, show (512 : ℚ) ^ 2 = 2 ^ 18 by norm_num]
  have hdigits : (-18 : Int) + Float.Model.Format.binary32.mantissaBitsWithoutImplicit + 1 = 6 :=
    rfl
  refine roundValue_of_lt (e := -18) hnonneg ⟨s.toInt, ?_⟩ (hdigits ▸ hbelow) (by decide)
  rw [div_eq_mul_inv, zpow_neg]
  rfl

/-- Up to equal descriptors the clamp does nothing. -/
theorem value32_cosineOf (hlow : 0 ≤ s.toInt) (hhigh : s.toInt ≤ 512 ^ 2) :
    value32 (cosineOf s) = s.toInt / 512 ^ 2 := by
  obtain ⟨hfinite, hvalue⟩ := value32_quotient hlow (by omega)
  have hlow' : (0 : ℚ) ≤ s.toInt := by exact_mod_cast hlow
  have hhigh' : (s.toInt : ℚ) ≤ 512 ^ 2 := by exact_mod_cast hhigh
  have hone : position32 (ofInteger32 s.toInt / fullSimilarity) ≤ position32 1 := by
    rw [position32_le_iff hfinite rfl, hvalue, value32_one]
    exact div_le_one_of_le₀ hhigh' (by norm_num)
  have hzero : position32 0 ≤ position32 (ofInteger32 s.toInt / fullSimilarity) := by
    rw [position32_le_iff rfl hfinite, hvalue]
    exact div_nonneg hlow' (by norm_num)
  rw [position32_one] at hone
  rw [show position32 0 = 0 from rfl] at hzero
  have hsame : position32 (cosineOf s) = position32 (ofInteger32 s.toInt / fullSimilarity) := by
    rw [position32_cosineOf]
    omega
  rw [← hvalue]
  exact value_eq_of_position_eq (fits_unpack32 _) (fits_unpack32 _) (isFinite_cosineOf s) hfinite
    hsame

/-- **A higher similarity has a strictly larger cosine**, up to that of equal descriptors. -/
theorem cosineOf_lt_cosineOf (hlow : 0 ≤ s.toInt) (h : s < t) (hhigh : t.toInt ≤ 512 ^ 2) :
    cosineOf s < cosineOf t := by
  have hlt : s.toInt < t.toInt := Int32.lt_iff_toInt_lt.mp h
  have hlt' : (s.toInt : ℚ) < t.toInt := by exact_mod_cast hlt
  refine lt_iff_position32.mpr ⟨⟨isNaN_of_isFinite (isFinite_cosineOf s),
    isNaN_of_isFinite (isFinite_cosineOf t)⟩, ?_⟩
  rw [← not_le, position32_le_iff (isFinite_cosineOf t) (isFinite_cosineOf s), not_le,
    value32_cosineOf hlow (by omega), value32_cosineOf (by omega) hhigh]
  exact div_lt_div_of_pos_right hlt' (by norm_num)

/-- From equal descriptors on the clamp answers 1. -/
theorem cosineOf_of_full (hlow : 512 ^ 2 ≤ s.toInt) (hhigh : s.toInt < 2 ^ 24) :
    cosineOf s = 1 := by
  rcases hlow.eq_or_lt with heq | hlt
  · obtain rfl : s = 262144 := Int32.toInt_inj.mp heq.symm
    decide +kernel
  · obtain ⟨hfinite, hvalue⟩ := value32_quotient (s := s) (by omega) hhigh
    have hlt' : (512 ^ 2 : ℚ) < s.toInt := by exact_mod_cast hlt
    have habove : 1 < ofInteger32 s.toInt / fullSimilarity := by
      refine lt_iff_position32.mpr ⟨⟨rfl, isNaN_of_isFinite hfinite⟩, ?_⟩
      rw [← not_le, position32_le_iff hfinite rfl, not_le, value32_one, hvalue]
      exact (one_lt_div (by norm_num)).mpr hlt'
    have hnlow : ¬ofInteger32 s.toInt / fullSimilarity < -1 := by
      rw [lt_iff_position32, position32_neg_one]
      have hposition := (lt_iff_position32.mp habove).2
      rw [position32_one] at hposition
      omega
    unfold cosineOf clampUnit
    rw [if_neg hnlow, if_pos habove]

end Cosine

/-! ## The entries of a matrix -/

namespace SimilarityMatrix

/-- The matrices that comparing two images gives, by their descriptors alone or under a test. -/
inductive Compared : SimilarityMatrix → Prop where
  | plain (a b : Array Descriptor) : Compared (ofDescriptors a b)
  | guided {rejects : Point Float32 → Point Float32 → Bool} {a b : Features}
      {m : SimilarityMatrix} (h : ofFeatures rejects a b = .ok m) : Compared m

theorem mem_entries_ofFn {rows cols : Nat} {f : Fin rows → Fin cols → Int32} {s : Int32}
    (h : s ∈ (ofFn f).entries) : ∃ i j, s = f i j := by
  obtain ⟨k, rfl⟩ := Array.mem_ofFn.mp h
  exact ⟨_, _, rfl⟩

/-- An entry is 0 or a dot product. -/
theorem Compared.entry {m : SimilarityMatrix} (h : m.Compared) {s : Int32} (hs : s ∈ m.entries) :
    s = 0 ∨ ∃ a b : Descriptor, s = a.dot b := by
  cases h with
  | plain a b =>
    obtain ⟨i, j, rfl⟩ := mem_entries_ofFn hs
    exact .inr ⟨_, _, rfl⟩
  | @guided rejects a b _ h =>
    unfold ofFeatures at h
    split at h
    · rename_i ha
      split at h
      · rename_i hb
        cases h
        obtain ⟨i, j, rfl⟩ := mem_entries_ofFn hs
        split
        · exact .inl rfl
        · exact .inr ⟨_, _, rfl⟩
      · cases h
    · cases h

/-- **No entry is negative or above the largest sum.** -/
theorem Compared.entry_mem {m : SimilarityMatrix} (h : m.Compared) {s : Int32}
    (hs : s ∈ m.entries) : 0 ≤ s.toInt ∧ s.toInt ≤ 128 * 255 * 255 := by
  rcases h.entry hs with rfl | ⟨a, b, rfl⟩
  · decide
  · rw [← a.partialDot_binCount b]
    exact a.toInt_partialDot_mem b le_rfl

end SimilarityMatrix

/-- **Similarities are exact.** A dot product is computed by adding the product of one pair of bins
after the other. No product and no sum on the way wraps: each is the integer that it stands for, not
negative and at most `128 * 255 * 255`, so the sums in checked words never stop. Every entry of a
matrix, plain or under any test, is at most that, hence below `2 ^ 24`: its conversion to binary32
and the quotient by `512 ^ 2` are finite and exact. Of any two entries up to `512 ^ 2` the higher
one has the strictly larger cosine, and every entry from there on has the cosine 1. -/
theorem similarities_are_exact :
    (∀ a b : Descriptor,
      a.partialDot b 0 = 0 ∧ a.partialDot b binCount = a.dot b ∧ a.dot? b = some (a.dot b) ∧
      (∀ k : Fin binCount,
        let product := Descriptor.wordOf (a.bins.get k) * Descriptor.wordOf (b.bins.get k)
        a.partialDot b (k + 1) = a.partialDot b k + product ∧
        product.toInt = ((a.bins.get k).toNat : Int) * (b.bins.get k).toNat ∧
        0 ≤ product.toInt ∧ product.toInt ≤ 128 * 255 * 255) ∧
      ∀ (k : Nat) (hk : k ≤ binCount),
        (a.partialDot b k).toInt = ∑ i : Fin k,
          ((a.bins.get (i.castLE hk)).toNat : Int) * (b.bins.get (i.castLE hk)).toNat ∧
        0 ≤ (a.partialDot b k).toInt ∧ (a.partialDot b k).toInt ≤ 128 * 255 * 255) ∧
    (∀ m : SimilarityMatrix, m.Compared → ∀ s ∈ m.entries,
      0 ≤ s.toInt ∧ s.toInt ≤ 128 * 255 * 255 ∧ s.toInt < 2 ^ 24 ∧
      (ofInteger32 s.toInt).isFinite = true ∧ value32 (ofInteger32 s.toInt) = s.toInt ∧
      (ofInteger32 s.toInt / fullSimilarity).isFinite = true ∧
      value32 (ofInteger32 s.toInt / fullSimilarity) = s.toInt / 512 ^ 2 ∧
      (512 ^ 2 ≤ s.toInt → cosineOf s = 1)) ∧
    ∀ m m' : SimilarityMatrix, m.Compared → m'.Compared → ∀ s ∈ m.entries, ∀ t ∈ m'.entries,
      s < t → t.toInt ≤ 512 ^ 2 → cosineOf s < cosineOf t := by
  refine ⟨?_, ?_, ?_⟩
  · intro a b
    refine ⟨rfl, a.partialDot_binCount b, a.dot?_eq b, ?_, ?_⟩
    · intro k
      exact ⟨a.partialDot_succ b k, Descriptor.toInt_wordOf_mul _ _,
        Descriptor.toInt_wordOf_mul_mem _ _⟩
    · intro k hk
      exact ⟨a.toInt_partialDot b hk, a.toInt_partialDot_mem b hk⟩
  · intro m hm s hs
    obtain ⟨hlow, hhigh⟩ := hm.entry_mem hs
    have hdigits : s.toInt < 2 ^ 24 := by omega
    obtain ⟨hfinite, hquotient⟩ := value32_quotient hlow hdigits
    exact ⟨hlow, hhigh, hdigits, isFinite_ofInteger32 s, value32_ofInteger32 hlow hdigits, hfinite,
      hquotient, fun hfull => cosineOf_of_full hfull hdigits⟩
  · intro m m' hm _ s hs t _ hlt hfull
    exact cosineOf_lt_cosineOf (hm.entry_mem hs).1 hlt hfull

/-- The descriptor with the largest dot products. -/
def Descriptor.saturated : Descriptor := ⟨.replicate binCount 255⟩

/-- Two corners are less similar than one corner is to itself, and their cosines tell them apart;
the largest similarity has the cosine of equal descriptors. -/
theorem similarities_are_exact_corners :
    (∃ guided,
      SimilarityMatrix.ofFeatures (fun p q => decide (p.x < q.x)) .corners .corners = .ok guided ∧
      184320 ∈ guided.entries ∧ 259200 ∈ guided.entries ∧ cosineOf 184320 < cosineOf 259200) ∧
    ∃ s ∈ (SimilarityMatrix.ofDescriptors #[.saturated] #[.saturated]).entries,
      s.toInt = 128 * 255 * 255 ∧ cosineOf s = 1 := by
  obtain ⟨hsums, hentries, hcosines⟩ := similarities_are_exact
  refine ⟨?_, ?_⟩
  · have hguided := SimilarityMatrix.ofFeatures_of_aligned
      (fun p q => decide (p.x < q.x)) Features.aligned_corners Features.aligned_corners
    refine ⟨_, hguided, by decide +kernel, by decide +kernel, ?_⟩
    exact hcosines _ _ (.guided hguided) (.guided hguided) _ (by decide +kernel) _
      (by decide +kernel) (by decide) (by decide)
  · have hmember : Descriptor.dot .saturated .saturated ∈
        (SimilarityMatrix.ofDescriptors #[.saturated] #[.saturated]).entries := by
      decide +kernel
    refine ⟨_, hmember, by decide +kernel, ?_⟩
    obtain ⟨-, -, -, -, -, -, -, hfull⟩ := hentries _ (.plain _ _) _ hmember
    exact hfull (by decide +kernel)

end FeatureMatching
