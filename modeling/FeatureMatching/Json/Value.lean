import FeatureMatching.Numeric.Rounding

/-!
# JSON values

A stored value is a JSON tree. A number is an integer or a binary64 value, and the difference
matters: a count is read from an integer only, a float from either. An integer is kept as one as
long as it fits in 64 bits, signed or unsigned; a larger one is a binary64 value.
-/

set_option autoImplicit false

namespace FeatureMatching

namespace Json

/-- A JSON number. -/
inductive Number where
  /-- A number written without fraction and exponent. -/
  | integer (value : Int)
  /-- Any other number. -/
  | real (value : Float)
deriving DecidableEq

/-- The least signed integer of 64 bits. -/
def leastInteger : Int := -9223372036854775808

/-- The greatest unsigned integer of 64 bits. -/
def greatestInteger : Int := 18446744073709551615

/-- The number that an integer literal stands for. -/
def Number.ofLiteral (value : Int) : Number :=
  if leastInteger ≤ value ∧ value ≤ greatestInteger then .integer value
  else .real (Numeric.ofInteger64 value)

/-- A JSON tree. The members of an object keep their order, which no reader looks at. -/
inductive Value where
  | null
  | bool (value : Bool)
  | number (value : Number)
  | string (value : String)
  | array (elements : List Value)
  | object (members : List (String × Value))

namespace Value

/-! ## Scalars -/

/-- Writes a count. -/
def ofNat (n : Nat) : Value := .number (.integer n)

/-- Writes a binary64 value; one that is not finite has no number and becomes null. -/
def ofFloat (x : Float) : Value := if x.isFinite then .number (.real x) else .null

/-- Writes a binary32 value as the binary64 value equal to it. -/
def ofFloat32 (x : Float32) : Value := ofFloat (Numeric.widen x)

def toBool? : Value → Option Bool
  | .bool b => some b
  | _ => none

/-- Reads a count: an integer that is not negative. -/
def toNat? : Value → Option Nat
  | .number (.integer n) => if 0 ≤ n then some n.toNat else none
  | _ => none

/-- Reads a binary64 value from any number. -/
def toFloat? : Value → Option Float
  | .number (.integer n) => some (Numeric.ofInteger64 n)
  | .number (.real x) => some x
  | _ => none

/-- Reads a binary32 value from any number, rounding once. -/
def toFloat32? : Value → Option Float32
  | .number (.integer n) => some (Numeric.ofInteger32 n)
  | .number (.real x) => some (Numeric.narrow x)
  | _ => none

/-- Reads a list of which every element can be read. -/
def toList? {α : Type} (read : Value → Option α) : Value → Option (List α)
  | .array elements => elements.mapM read
  | _ => none

/-- Reads the name of one of several alternatives: a string, or an object whose only member has that
name and holds nothing. -/
def toName? : Value → Option String
  | .string name => some name
  | .object [(name, .null)] => some name
  | _ => none

end Value

/-! ## Records -/

/-- The fields of a record as they were found in a value: by name, `none` where a field is
missing. -/
abbrev Fields := String → Option Value

/-- Finds the fields of a record whose field names are given in order. An object holds them by name
and may hold others; an array holds them by position and must not hold more. -/
def fields? (names : List String) : Value → Option Fields
  | .object members => some fun name => members.lookup name
  | .array elements =>
    if elements.length ≤ names.length then some fun name => (names.zip elements).lookup name
    else none
  | _ => none

namespace Fields

/-- Reads a field that has to be there. -/
def required {α : Type} (fields : Fields) (name : String) (read : Value → Option α) : Option α :=
  (fields name).bind read

/-- Reads a field that may be missing. -/
def optional {α : Type} (fields : Fields) (name : String) (read : Value → Option α)
    (otherwise : α) : Option α :=
  match fields name with
  | some value => read value
  | none => some otherwise

end Fields

end Json

end FeatureMatching
