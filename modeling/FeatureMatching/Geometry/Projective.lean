/-!
# Points, lines and the matrices between them

The two-view models are 3 × 3 matrices that act on points of the plane written with a third
coordinate 1. Everything here is generic in the scalar: the residuals are computed in binary64, and
the same definitions read over the rationals say what they would be without rounding. So the order
of the operations is part of each definition, products of a row summed from the left.
-/

set_option autoImplicit false

namespace FeatureMatching

/-- A point of the plane. -/
structure Point (α : Type) where
  x : α
  y : α
deriving DecidableEq, Repr

/-- A point with both coordinates changed by the same function. -/
def Point.map {α β : Type} (f : α → β) (p : Point α) : Point β := ⟨f p.x, f p.y⟩

/-- A vector with three components: a line, or a point up to scale. -/
structure Vector3 (α : Type) where
  x : α
  y : α
  z : α
deriving DecidableEq, Repr

/-- A 3 × 3 matrix; `mrc` is the entry in row `r` and column `c`. -/
structure Matrix3 (α : Type) where
  m00 : α
  m01 : α
  m02 : α
  m10 : α
  m11 : α
  m12 : α
  m20 : α
  m21 : α
  m22 : α
deriving DecidableEq, Repr

namespace Matrix3

variable {α : Type}

/-- The matrix with rows and columns exchanged. -/
def transpose (m : Matrix3 α) : Matrix3 α :=
  ⟨m.m00, m.m10, m.m20, m.m01, m.m11, m.m21, m.m02, m.m12, m.m22⟩

def identity [OfNat α 0] [OfNat α 1] : Matrix3 α := ⟨1, 0, 0, 0, 1, 0, 0, 0, 1⟩

/-- The nine entries, one column after another. -/
def columns (m : Matrix3 α) : List α :=
  [m.m00, m.m10, m.m20, m.m01, m.m11, m.m21, m.m02, m.m12, m.m22]

/-- The matrix with the given entries, one row after another; `none` unless there are nine. -/
def ofRows? : List α → Option (Matrix3 α)
  | [a, b, c, d, e, f, g, h, i] => some ⟨a, b, c, d, e, f, g, h, i⟩
  | _ => none

/-- The matrix with the given entries, one column after another; `none` unless there are nine. -/
def ofColumns? (entries : List α) : Option (Matrix3 α) := (ofRows? entries).map transpose

theorem ofColumns?_columns (m : Matrix3 α) : ofColumns? m.columns = some m := rfl

/-- The image of the point `(x, y, 1)`. -/
def apply [Add α] [Mul α] [OfNat α 1] (m : Matrix3 α) (p : Point α) : Vector3 α where
  x := m.m00 * p.x + m.m01 * p.y + m.m02 * 1
  y := m.m10 * p.x + m.m11 * p.y + m.m12 * 1
  z := m.m20 * p.x + m.m21 * p.y + m.m22 * 1

end Matrix3

end FeatureMatching
