import FeatureMatching.Numeric.Rounding

/-!
# The length of a vector with two binary32 components

The sum of the two squares is formed exactly, as an integer with an exponent, and only its root is
rounded, so no square can overflow or vanish on the way. The order and the signs of the components
play no part: the definition reads their magnitudes and adds the squares.
-/

set_option autoImplicit false

namespace FeatureMatching.Numeric

open Float.Model

/-- The root of `mantissa · 2 ^ exponent`, rounded to binary32. -/
def root32 (mantissa : Nat) (exponent : Int) : Float32 :=
  let (root, rootExponent, accuracy) := UnpackedFloat.sqrtCore Format.binary32 mantissa exponent
  .ofModel (.pack (UnpackedFloat.roundWithAccuracy Format.binary32 .positive root rootExponent
    accuracy))

/-- The square of a value in units of `2 ^ (-298)`, the square of the least binary32 value; `none`
for an infinity or a NaN. -/
def square? : UnpackedFloat → Option Nat
  | .finite _ mantissa exponent _ =>
    let units := mantissa <<< (exponent + 149).toNat
    some (units * units)
  | .zero _ => some 0
  | _ => none

/-- Whether a value is one of the two infinities. -/
def isInfinite : UnpackedFloat → Bool
  | .infinity _ => true
  | _ => false

/-- The length of the vector `(x, y)`. An infinite component makes it infinite, even beside a
NaN. -/
def hypot32 (x y : Float32) : Float32 :=
  let u := unpack32 x
  let v := unpack32 y
  if isInfinite u || isInfinite v then infinity32
  else
    match square? u, square? v with
    | some a, some b => if a + b = 0 then 0 else root32 (a + b) (-298)
    | _, _ => nan32

end FeatureMatching.Numeric
