/-!
# Rounding an exact value to a float

Coordinates, descriptors and angles are binary32; matrices, residuals and pixel thresholds are
binary64. Every change of width in the library, and every function below that is not plain
arithmetic, ends in the same step: an exact value `± m · 2 ^ e` is rounded **once**, to the nearest
float, a tie going to the even mantissa. That step is this file.

Reading a float as such a value is `unpack`: a float is a NaN, a signed infinity, a signed zero or
`± m · 2 ^ e` with `m > 0`, and nothing here looks at a bit pattern in another way.
-/

set_option autoImplicit false

namespace FeatureMatching.Numeric

open Float.Model

/-- The sign, mantissa and exponent of a binary32 value. -/
def unpack32 (x : Float32) : UnpackedFloat := x.toModel.unpack

/-- The sign, mantissa and exponent of a binary64 value. -/
def unpack64 (x : Float) : UnpackedFloat := x.toModel.unpack

/-- The binary32 value nearest to `± mantissa · 2 ^ exponent`. -/
def nearest32 (sign : UnpackedFloat.Sign) (mantissa : Nat) (exponent : Int) : Float32 :=
  .ofModel (.pack (UnpackedFloat.round Format.binary32 sign mantissa exponent))

/-- The binary64 value nearest to `± mantissa · 2 ^ exponent`. -/
def nearest64 (sign : UnpackedFloat.Sign) (mantissa : Nat) (exponent : Int) : Float :=
  .ofModel (.pack (UnpackedFloat.round Format.binary64 sign mantissa exponent))

/-- The binary64 value equal to a binary32 value. Both the precision and the exponent range grow,
so the rounding has nothing to do. -/
def widen (x : Float32) : Float :=
  match unpack32 x with
  | .finite sign mantissa exponent _ => nearest64 sign mantissa exponent
  | special => .ofModel (.pack special)

/-- The binary32 value nearest to a binary64 value; beyond the largest finite one it is an
infinity. -/
def narrow (x : Float) : Float32 :=
  match unpack64 x with
  | .finite sign mantissa exponent _ => nearest32 sign mantissa exponent
  | special => .ofModel (.pack special)

/-- The sign of an integer; zero counts as positive, so that it becomes `+0`. -/
def signOf (n : Int) : UnpackedFloat.Sign := if n < 0 then .negative else .positive

/-- The binary32 value nearest to an integer. -/
def ofInteger32 (n : Int) : Float32 := nearest32 (signOf n) n.natAbs 0

/-- The binary64 value nearest to an integer. -/
def ofInteger64 (n : Int) : Float := nearest64 (signOf n) n.natAbs 0

/-! ## The special values -/

def nan32 : Float32 := .ofModel (.pack .notANumber)

def infinity32 : Float32 := .ofModel (.pack (.infinity .positive))

def infinity64 : Float := .ofModel (.pack (.infinity .positive))

end FeatureMatching.Numeric
