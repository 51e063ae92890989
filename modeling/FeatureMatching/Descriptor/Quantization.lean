import FeatureMatching.Descriptor
import FeatureMatching.Numeric.Rounding

/-!
# From a real-valued descriptor to bytes

A detector delivers a descriptor as real numbers of any size. It is first **normalized**: every bin
is rescaled by one number, the norm, which is computed from all of them. Then it is **quantized**:
every bin is multiplied by 512 and rounded to a byte.

Once the norm is known both steps act on each bin alone, by one function of that bin. That is the
shape of the definitions here.
-/

set_option autoImplicit false

namespace FeatureMatching

open Numeric
open Float.Model

/-- The ways of normalizing a descriptor. -/
inductive Normalization where
  /-- Divide by the Euclidean norm. -/
  | l2
  /-- Divide by the sum of magnitudes and take the square root of each bin. -/
  | l1Root
deriving DecidableEq, Repr, Inhabited

namespace Normalization

/-- The normalization used where none is named. -/
def standard : Normalization := .l2

/-- Every normalization. -/
def all : List Normalization := [.l2, .l1Root]

/-- The written name. -/
def name : Normalization → String
  | .l2 => "L2"
  | .l1Root => "L1Root"

/-- The normalization of a written name; case matters. -/
def ofName? (name : String) : Option Normalization := all.find? fun n => n.name == name

theorem ofName?_name (n : Normalization) : ofName? n.name = some n := by
  cases n <;> rfl

/-- The sum of a function of the values, from left to right. -/
def sum (f : Float32 → Float32) (values : List Float32) : Float32 :=
  values.foldl (fun total v => total + f v) 0

/-- The number that the values are rescaled by. -/
def norm : Normalization → List Float32 → Float32
  | .l2, values => (sum (fun v => v * v) values).sqrt
  | .l1Root, values => sum Float32.abs values

/-- One value rescaled by a norm. A zero norm leaves every value as it is. -/
def rescale (normalization : Normalization) (norm value : Float32) : Float32 :=
  if norm == 0 then value
  else
    match normalization with
    | .l2 => value / norm
    | .l1Root => (value / norm).sqrt

/-- The values rescaled by their own norm. -/
def apply (normalization : Normalization) (values : List Float32) : List Float32 :=
  values.map (normalization.rescale (normalization.norm values))

end Normalization

/-- The integer nearest to `mantissa · 2 ^ exponent`, a half rounded up. -/
def roundHalfUp (mantissa : Nat) (exponent : Int) : Nat :=
  if 0 ≤ exponent then mantissa <<< exponent.toNat
  else (2 * mantissa + 1 <<< (-exponent).toNat) >>> ((-exponent).toNat + 1)

/-- The byte nearest to a value: a half rounds up, values below the range give 0 and those above it
255. A NaN gives 0. -/
def nearestByte (value : Float32) : UInt8 :=
  match unpack32 value with
  | .finite .positive mantissa exponent _ => .ofNat (min 255 (roundHalfUp mantissa exponent))
  | .infinity .positive => 255
  | _ => 0

/-- The length that a descriptor of unit length is given before rounding. -/
def quantizationScale : Float32 := 512

/-- A normalized bin as a byte. -/
def quantizeBin (value : Float32) : UInt8 := nearestByte (quantizationScale * value)

namespace Descriptor

/-- The bytes of a descriptor that is normalized already. -/
def ofNormalized (values : Vector Float32 binCount) : Descriptor := ⟨values.map quantizeBin⟩

/-- Normalizes a real-valued descriptor and rounds it to bytes. -/
def quantize (normalization : Normalization) (raw : Vector Float32 binCount) : Descriptor :=
  .ofNormalized (raw.map (normalization.rescale (normalization.norm raw.toList)))

end Descriptor

end FeatureMatching
