/-!
# Rounding an angle by its place on the float grid

The non-negative binary32 values in increasing order are the bit patterns `0, 1, 2, …`. To round an
angle `θ` of `[0, π]` to the nearest of them it is enough to count the **midpoints** between
neighbours that lie below `θ`, and that only needs a test "does midpoint `k` lie below `θ`?", which
an inverse function can answer by evaluating the function it inverts.

The count is found bit by bit. Two facts hold for any test, monotone in `k` or not: a test that says
yes more often gives a count that is at least as large, and the count stays within `[0, π]`. They
are why the functions built on it are monotone, non-negative and never NaN, whatever is known about
the accuracy of the test.
-/

set_option autoImplicit false

namespace FeatureMatching.Numeric.AngleGrid

/-- The bit pattern of the binary32 value nearest to `π`. -/
def halfTurn : Nat := 0x40490fdb

/-- The number of values in a binade: one for every mantissa of 23 explicit bits. -/
def binadeSize : Nat := 0x800000

/-- The midpoint between the values with bit patterns `k` and `k + 1`, in fixed point. With 150
places or more it is an integer. -/
def midpoint (places k : Nat) : Nat :=
  let binade := k / binadeSize
  let mantissa := if binade = 0 then k else binadeSize + k % binadeSize
  (2 * mantissa + 1) <<< (places - 150 + (binade - 1))

/-- Counts the midpoints that the test puts below the angle: the highest bits first, a bit is kept
if the midpoint just before the count with that bit is still below. -/
def count (below : Nat → Bool) : Nat → Nat → Nat
  | 0, found => found
  | bits + 1, found =>
    let next := found + 1 <<< bits
    count below bits (if below (next - 1) then next else found)

/-- The bit pattern nearest to the angle of `[0, π]` that the test describes. -/
def nearest (below : Nat → Bool) : Nat :=
  count (fun k => decide (k < halfTurn) && below k) 31 0

/-! ## The count follows the test -/

theorem le_count (below : Nat → Bool) (bits found : Nat) : found ≤ count below bits found := by
  induction bits generalizing found with
  | zero => exact Nat.le_refl _
  | succ bits ih =>
    refine Nat.le_trans ?_ (ih _)
    split
    · exact Nat.le_add_right _ _
    · exact Nat.le_refl _

theorem count_lt (below : Nat → Bool) (bits found : Nat) :
    count below bits found < found + 1 <<< bits := by
  induction bits generalizing found with
  | zero => simp [count]
  | succ bits ih =>
    refine Nat.lt_of_lt_of_le (ih _) ?_
    rw [Nat.shiftLeft_succ]
    split <;> omega

/-- **A test that says yes more often gives a larger count.** Where the two runs part, the one that
keeps the bit ends above every count that the other can still reach. -/
theorem count_mono {below below' : Nat → Bool} (h : ∀ k, below k = true → below' k = true)
    (bits found : Nat) : count below bits found ≤ count below' bits found := by
  induction bits generalizing found with
  | zero => exact Nat.le_refl _
  | succ bits ih =>
    simp only [count]
    by_cases hb : below (found + 1 <<< bits - 1) = true
    · rw [if_pos hb, if_pos (h _ hb)]
      exact ih _
    · rw [if_neg hb]
      split
      · exact Nat.le_trans (Nat.le_of_lt (count_lt below bits found)) (le_count below' bits _)
      · exact ih _

/-- A count that has moved has stopped just after a midpoint below the angle. -/
theorem below_of_count (below : Nat → Bool) (bits found : Nat)
    (h : found < count below bits found) : below (count below bits found - 1) = true := by
  induction bits generalizing found with
  | zero => exact absurd h (Nat.lt_irrefl _)
  | succ bits ih =>
    simp only [count] at h ⊢
    split at h
    · rename_i hb
      rw [if_pos hb]
      rcases Nat.eq_or_lt_of_le (le_count below bits (found + 1 <<< bits)) with heq | hlt
      · rw [← heq]
        exact hb
      · exact ih _ hlt
    · rename_i hb
      rw [if_neg hb]
      exact ih _ h

theorem nearest_le_halfTurn (below : Nat → Bool) : nearest below ≤ halfTurn := by
  rcases Nat.eq_zero_or_pos (nearest below) with h0 | hpos
  · omega
  · have h := below_of_count _ 31 0 hpos
    simp only [Bool.and_eq_true, decide_eq_true_eq] at h
    unfold nearest at hpos ⊢
    omega

theorem nearest_mono {below below' : Nat → Bool} (h : ∀ k, below k = true → below' k = true) :
    nearest below ≤ nearest below' :=
  count_mono (fun k hk => by
    simp only [Bool.and_eq_true, decide_eq_true_eq] at hk ⊢
    exact ⟨hk.1, h k hk.2⟩) 31 0

end FeatureMatching.Numeric.AngleGrid
