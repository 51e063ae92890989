/-!
# Sine and cosine in fixed point

A fixed-point number with `places` binary places is an integer `n` read as `n / 2 ^ places`. The
two functions below sum the Taylor series of the sine and the cosine on such numbers, for angles
between `0` and `π`, where the terms shrink faster than a geometric series once their index passes
four. Each term is cut to an integer, so callers ask for many more places than they keep.
-/

set_option autoImplicit false

namespace FeatureMatching.Numeric.FixedPoint

/-- The alternating sum `t₀ - t₁ + t₂ - …` in which `t₀ = term` and each term is the one before it
times `square / (n (n + 1))`, with `n` two larger every time. It ends at the first term that
vanishes, or after `terms` terms. -/
def alternating (places square : Nat) : Nat → Nat → Nat → Int
  | 0, _, _ => 0
  | terms + 1, term, n =>
    if term = 0 then 0
    else
      (term : Int) -
        alternating places square terms ((term * square) >>> places / (n * (n + 1))) (n + 2)

/-- More terms than are needed for an angle up to `π`: with `n = places / 2 + 16` the quotient
`π ^ n / n!` is far below `2 ^ (-places)`. -/
def termCount (places : Nat) : Nat := places / 4 + 8

/-- The cosine of an angle, both in fixed point. -/
def cosine (places angle : Nat) : Int :=
  alternating places ((angle * angle) >>> places) (termCount places) (1 <<< places) 1

/-- The sine of an angle, both in fixed point. -/
def sine (places angle : Nat) : Int :=
  alternating places ((angle * angle) >>> places) (termCount places) angle 2

/-! ## Reduction to the first quadrant -/

/-- The binary places used where an angle of any size is reduced: the largest binary32 value is
below `2 ^ 128`, so subtracting multiples of `π / 2` leaves at least 190 exact places. -/
def reductionPlaces : Nat := 320

/-- `π / 2` with `reductionPlaces` binary places, cut to an integer. -/
def quarterTurn : Nat :=
  0x1921fb54442d18469898cc51701b839a252049c1114cf98e804177d4c76273644a29410f31c6809bb

/-- The cosine of a non-negative angle of any size. -/
def cosineReduced (angle : Nat) : Int :=
  let rest := angle % quarterTurn
  match angle / quarterTurn % 4 with
  | 0 => cosine reductionPlaces rest
  | 1 => -sine reductionPlaces rest
  | 2 => -cosine reductionPlaces rest
  | _ => sine reductionPlaces rest

/-- The sine of a non-negative angle of any size. -/
def sineReduced (angle : Nat) : Int :=
  let rest := angle % quarterTurn
  match angle / quarterTurn % 4 with
  | 0 => sine reductionPlaces rest
  | 1 => cosine reductionPlaces rest
  | 2 => -sine reductionPlaces rest
  | _ => -cosine reductionPlaces rest

end FeatureMatching.Numeric.FixedPoint
