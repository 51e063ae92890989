import FeatureMatching.Numeric.Rounding
import FeatureMatching.Numeric.FixedPoint
import FeatureMatching.Numeric.AngleGrid

/-!
# Binary32 trigonometry

The circular functions that the library needs. They are defined here rather than taken from the
platform so that they can be evaluated in a proof, and so that what the library leans on can be
proved of them: an arc cosine is a finite number that is not negative on `[-1, 1]`, a larger cosine
never has a larger angle, and every direction has a finite angle.

The forward functions evaluate a series in fixed point and round the sum once. The inverse functions
search the float grid (`AngleGrid`), with the forward series as the test. How far a truncated series
is from the exact value is not estimated here, and nothing depends on it.
-/

set_option autoImplicit false

namespace FeatureMatching.Numeric

open Float.Model
open FixedPoint

/-- A finite binary32 magnitude in fixed point; an integer once `places` is 149 or more. -/
def magnitude (places : Nat) (mantissa : Nat) (exponent : Int) : Nat :=
  mantissa <<< (exponent + places).toNat

/-! ## Sine and cosine -/

/-- A reduced sine or cosine rounded to binary32. -/
def ofReduced (sign : UnpackedFloat.Sign) (value : Int) : Float32 :=
  nearest32 (signOf (sign.apply value)) value.natAbs (-reductionPlaces)

/-- The sine of an angle in radians; NaN for an infinite angle. -/
def sin32 (angle : Float32) : Float32 :=
  match unpack32 angle with
  | .finite sign mantissa exponent _ =>
    ofReduced sign (sineReduced (magnitude reductionPlaces mantissa exponent))
  | .zero _ => angle
  | _ => nan32

/-- The cosine of an angle in radians; NaN for an infinite angle. -/
def cos32 (angle : Float32) : Float32 :=
  match unpack32 angle with
  | .finite _ mantissa exponent _ =>
    ofReduced .positive (cosineReduced (magnitude reductionPlaces mantissa exponent))
  | .zero _ => 1
  | _ => nan32

/-! ## Arc cosine -/

/-- The binary places of the arc cosine's test. -/
def arccosPlaces : Nat := 192

/-- The bit pattern of the arc cosine of a fixed-point number of `[-1, 1]`: a midpoint lies below
the angle when its cosine lies above the number. -/
def arccosBits (value : Int) : Nat :=
  AngleGrid.nearest fun k =>
    decide (value < cosine arccosPlaces (AngleGrid.midpoint arccosPlaces k))

/-- The angle of `[0, π]` whose cosine is `value`; NaN outside `[-1, 1]`. -/
def arccos32 (value : Float32) : Float32 :=
  match unpack32 value with
  | .finite sign mantissa exponent _ =>
    let size := magnitude arccosPlaces mantissa exponent
    if size ≤ 1 <<< arccosPlaces then .ofBits (.ofNat (arccosBits (sign.apply size))) else nan32
  | .zero _ => .ofBits (.ofNat (arccosBits 0))
  | _ => nan32

/-! ## The angle of a direction -/

/-- The binary places of the test for directions. The angle may be as small as the least binary32
value, and there its distance to a midpoint is of the order of its cube. -/
def arctanPlaces : Nat := 512

/-- The bit pattern of the angle of `[0, π]` between the positive axis and the direction
`(run, rise)`: a midpoint lies below the angle when the direction is to the left of it. -/
def directionBits (run : Int) (rise : Nat) : Nat :=
  AngleGrid.nearest fun k =>
    let angle := AngleGrid.midpoint arctanPlaces k
    decide (run * sine arctanPlaces angle < rise * cosine arctanPlaces angle)

/-- The sign of a value that is not a NaN. -/
def signOfFloat : UnpackedFloat → UnpackedFloat.Sign
  | .finite sign _ _ _ | .zero sign | .infinity sign => sign
  | .notANumber => .positive

/-- A bit pattern of a non-negative value, with a sign. -/
def signed (sign : UnpackedFloat.Sign) (bits : Nat) : Float32 :=
  match sign with
  | .positive => .ofBits (.ofNat bits)
  | .negative => .ofBits (.ofNat (0x80000000 + bits))

/-- A direction's component in the smallest binary32 unit; the signed `unit` where the value itself
is a zero or is infinite. -/
def component (unit : Nat) : UnpackedFloat → Int
  | .finite sign mantissa exponent _ => sign.apply (magnitude 149 mantissa exponent)
  | special => (signOfFloat special).apply unit

/-- The angle of the direction `(x, y)` in `[-π, π]`, negative below the axis. A zero `y` keeps its
sign and lies on the side of the axis that the sign of `x` names, an infinite component makes a
finite one vanish, and two infinite ones count as equal. -/
def arctan32 (y x : Float32) : Float32 :=
  let v := unpack32 y
  let u := unpack32 x
  match v, u with
  | .notANumber, _ | _, .notANumber => nan32
  | .infinity s, .infinity _ => signed s (directionBits (component 1 u) 1)
  | .infinity s, _ => signed s (directionBits 0 1)
  | .zero s, _ => signed s (directionBits (component 1 u) 0)
  | .finite s _ _ _, .infinity _ => signed s (directionBits (component 1 u) 0)
  | .finite s _ _ _, _ => signed s (directionBits (component 0 u) (component 0 v).natAbs)

end FeatureMatching.Numeric
