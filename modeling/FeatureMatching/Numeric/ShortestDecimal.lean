import FeatureMatching.Numeric.Rounding

/-!
# The shortest decimal that reads back

A message that quotes a float writes the fewest decimal digits that still round to that float, and
of the decimals with that many digits the one nearest to it. This file finds those digits in exact
integer arithmetic and writes them positionally: never with an exponent, never with a fraction that
is only zeros.

The decimals that round to `m · 2 ^ e` form an interval that reaches halfway to the neighbours. In
units of `2 ^ (e - 2)` the value is `4 m` and the interval's ends are integers too, so "does a
multiple of `10 ^ k` lie inside?" compares integers. The coarsest power of ten with a hit gives the
digits.
-/

set_option autoImplicit false

namespace FeatureMatching.Numeric

open Float.Model

namespace ShortestDecimal

/-- The two facts about a float format that decide how far its neighbours are: the width of its
mantissa and its least exponent. -/
structure Grid where
  /-- Bits of a full mantissa, the leading one included. -/
  mantissaBits : Nat
  /-- The exponent of the least positive value. -/
  leastExponent : Int

def single : Grid := ⟨24, -149⟩

def double : Grid := ⟨53, -1074⟩

/-- A decimal `digits · 10 ^ exponent`. -/
structure Decimal where
  /-- The digits, read as one number. -/
  digits : Nat
  /-- The power of ten of the last digit. -/
  exponent : Int
deriving DecidableEq, Repr

/-- The lower end of the interval that rounds to `mantissa · 2 ^ exponent`, in quarter units. Below
a power of two the neighbour is only half as far away. -/
def lowerEnd (grid : Grid) (mantissa : Nat) (exponent : Int) : Nat :=
  if mantissa = 1 <<< (grid.mantissaBits - 1) ∧ grid.leastExponent < exponent then 4 * mantissa - 1
  else 4 * mantissa - 2

/-- The multiple of `10 ^ k` that rounds to `mantissa · 2 ^ exponent`, if there is one; of two, the
nearer, and the larger if both are equally near. The ends of the interval belong to it when the
mantissa is even, because a tie rounds to it then. -/
def multiple? (grid : Grid) (mantissa : Nat) (exponent k : Int) : Option Nat :=
  let step := Nat.pow 10 k.toNat <<< (2 - exponent).toNat
  let unit := Nat.pow 10 (-k).toNat <<< (exponent - 2).toNat
  let value := 4 * mantissa * unit
  let low := lowerEnd grid mantissa exponent * unit
  let high := (4 * mantissa + 2) * unit
  let down := value / step
  let inside (x : Nat) : Bool :=
    if mantissa % 2 = 0 then low ≤ x && x ≤ high else low < x && x < high
  match inside (down * step), inside ((down + 1) * step) with
  | true, true => some (if 2 * (value - down * step) < step then down else down + 1)
  | true, false => some down
  | false, true => some (down + 1)
  | false, false => none

/-- The least power of ten that needs looking at: every value is a multiple of it. -/
def floorExponent (exponent : Int) : Int := min exponent 0

/-- A power of ten above `mantissa · 2 ^ exponent`: three bits are less than a decimal digit, four
are more. -/
def ceilExponent (mantissa : Nat) (exponent : Int) : Int :=
  let top : Int := mantissa.log2 + 1 + exponent
  if 0 ≤ top then top / 3 + 1 else top / 4

/-- The value itself, as a multiple of the least power of ten that needs looking at. -/
def exact (mantissa : Nat) (exponent : Int) : Decimal :=
  ⟨(mantissa * Nat.pow 5 (-exponent).toNat) <<< exponent.toNat, floorExponent exponent⟩

/-- The first hit among the powers of ten from `floorExponent + rounds` downwards. -/
def coarsest (grid : Grid) (mantissa : Nat) (exponent : Int) : Nat → Decimal
  | 0 => exact mantissa exponent
  | rounds + 1 =>
    let k := floorExponent exponent + (rounds + 1 : Nat)
    match multiple? grid mantissa exponent k with
    | some digits => ⟨digits, k⟩
    | none => coarsest grid mantissa exponent rounds

/-- The shortest decimal that rounds to `mantissa · 2 ^ exponent`. -/
def shortest (grid : Grid) (mantissa : Nat) (exponent : Int) : Decimal :=
  coarsest grid mantissa exponent
    (ceilExponent mantissa exponent - floorExponent exponent).toNat

/-- A decimal in positional notation. -/
def positional (decimal : Decimal) : List Char :=
  let digits := Nat.toDigits 10 decimal.digits
  if 0 ≤ decimal.exponent then digits ++ List.replicate decimal.exponent.toNat '0'
  else
    let places := (-decimal.exponent).toNat
    let padded := List.replicate (places + 1 - digits.length) '0' ++ digits
    padded.take (padded.length - places) ++ '.' :: padded.drop (padded.length - places)

/-- The text of a number; a zero keeps its sign. -/
def text (grid : Grid) (value : UnpackedFloat) : String :=
  let withSign : UnpackedFloat.Sign → List Char → String
    | .positive, body => String.ofList body
    | .negative, body => String.ofList ('-' :: body)
  match value with
  | .notANumber => "NaN"
  | .infinity sign => withSign sign ['i', 'n', 'f']
  | .zero sign => withSign sign ['0']
  | .finite sign mantissa exponent _ =>
    withSign sign (positional (shortest grid mantissa exponent))

end ShortestDecimal

/-- The text of a binary32 value. -/
def text32 (x : Float32) : String := ShortestDecimal.text ShortestDecimal.single (unpack32 x)

/-- The text of a binary64 value. -/
def text64 (x : Float) : String := ShortestDecimal.text ShortestDecimal.double (unpack64 x)

/-! ## What is written

The digits depend on the format: both of the first two are the float nearest to one tenth. The third
lies exactly between two decimals of sixteen digits, and the larger one is written. -/

example : text32 0.1 = "0.1" := by decide +kernel

example : text64 0.1 = "0.1" := by decide +kernel

example : text64 888.33233642578125 = "888.3323364257813" := by decide +kernel

example : text64 1e23 = "100000000000000000000000" := by decide +kernel

example : text32 (-0.0) = "-0" := by decide +kernel

end FeatureMatching.Numeric
