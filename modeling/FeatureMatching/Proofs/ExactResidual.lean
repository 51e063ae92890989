import Mathlib
import FeatureMatching.Geometry.Residual

/-!
# The residuals without rounding

The residuals are generic in the scalar, and read over a field they say what binary64 approximates.
Here that reading is compared with the geometry it stands for, written with the matrices and vectors
of linear algebra: the incidence `qᵀ F p` of a pair is a product of vectors (`incidenceForm`), and
the Sampson distance is its square over four squared components of `F p` and `Fᵀ q`
(`sampson?_eq_ite`).

A fundamental matrix and a homography are known up to scale only, and a fundamental matrix read
backwards is its transpose. So a residual should not change with the scale, and the Sampson distance
should not change when the two images trade places (`sampson?_scaled`, `transfer?_scaled`,
`sampson?_transpose`). And it should vanish exactly for the pairs that the model explains: those on
each other's lines, and those whose first point is sent to the second
(`sampson?_eq_some_zero_iff`, `transfer?_eq_some_zero_iff`).
-/

set_option autoImplicit false

namespace FeatureMatching

open Matrix

/-! ## Matrices and points as in linear algebra -/

section Homogeneous

variable {K : Type}

/-- The point `(x, y, 1)`. -/
def Point.homogeneous [One K] (p : Point K) : Fin 3 → K := ![p.x, p.y, 1]

/-- The three components of a vector. -/
def Vector3.components (v : Vector3 K) : Fin 3 → K := ![v.x, v.y, v.z]

namespace Matrix3

/-- The matrix, row after row. -/
def toMatrix (m : Matrix3 K) : Matrix (Fin 3) (Fin 3) K :=
  !![m.m00, m.m01, m.m02; m.m10, m.m11, m.m12; m.m20, m.m21, m.m22]

/-- The matrix with every entry multiplied by the same number. -/
def scaled [Mul K] (s : K) (m : Matrix3 K) : Matrix3 K where
  m00 := s * m.m00
  m01 := s * m.m01
  m02 := s * m.m02
  m10 := s * m.m10
  m11 := s * m.m11
  m12 := s * m.m12
  m20 := s * m.m20
  m21 := s * m.m21
  m22 := s * m.m22

@[simp] theorem toMatrix_transpose (m : Matrix3 K) : m.transpose.toMatrix = m.toMatrixᵀ := by
  ext i j
  fin_cases i <;> fin_cases j <;> rfl

@[simp] theorem toMatrix_scaled [Mul K] (s : K) (m : Matrix3 K) :
    (m.scaled s).toMatrix = s • m.toMatrix := by
  ext i j
  fin_cases i <;> fin_cases j <;> rfl

/-- **The image of a point is the product with its homogeneous coordinates.** -/
theorem components_apply [NonAssocSemiring K] (m : Matrix3 K) (p : Point K) :
    (m.apply p).components = m.toMatrix *ᵥ p.homogeneous := by
  ext i
  fin_cases i <;>
    simp [apply, Vector3.components, toMatrix, Point.homogeneous, mulVec, add_assoc]

theorem apply_scaled [CommSemiring K] (s : K) (m : Matrix3 K) (p : Point K) :
    (m.scaled s).apply p = ⟨s * (m.apply p).x, s * (m.apply p).y, s * (m.apply p).z⟩ := by
  simp only [apply, scaled, Vector3.mk.injEq]
  refine ⟨?_, ?_, ?_⟩ <;> ring

end Matrix3

end Homogeneous

namespace Residual

/-! ## The Sampson distance -/

section Sampson

variable {K : Type} [Field K]

/-- The incidence `qᵀ F p` of a pair: zero when `q` lies on the line of `p`. -/
def incidenceForm (f : Matrix3 K) (p q : Point K) : K :=
  q.homogeneous ⬝ᵥ f.toMatrix *ᵥ p.homogeneous

/-- The squared gradient of the incidence in the four coordinates of the pair: the first two
components of `F p` and of `Fᵀ q`. -/
def squaredGradient (f : Matrix3 K) (p q : Point K) : K :=
  ∑ i : Fin 2, ((f.toMatrix *ᵥ p.homogeneous) i.castSucc ^ 2 +
    (f.toMatrixᵀ *ᵥ q.homogeneous) i.castSucc ^ 2)

/-- The form that belongs to the transposed matrix has its arguments exchanged. -/
theorem incidenceForm_transpose (f : Matrix3 K) (p q : Point K) :
    incidenceForm f.transpose q p = incidenceForm f p q := by
  unfold incidenceForm
  rw [Matrix3.toMatrix_transpose, dotProduct_comm, mulVec_transpose, dotProduct_mulVec]

theorem squaredGradient_transpose (f : Matrix3 K) (p q : Point K) :
    squaredGradient f.transpose q p = squaredGradient f p q := by
  unfold squaredGradient
  rw [Matrix3.toMatrix_transpose, Matrix.transpose_transpose]
  exact Finset.sum_congr rfl fun i _ => add_comm _ _

theorem incidenceForm_scaled (s : K) (f : Matrix3 K) (p q : Point K) :
    incidenceForm (f.scaled s) p q = s * incidenceForm f p q := by
  unfold incidenceForm
  rw [Matrix3.toMatrix_scaled, smul_mulVec, dotProduct_smul, smul_eq_mul]

theorem squaredGradient_scaled (s : K) (f : Matrix3 K) (p q : Point K) :
    squaredGradient (f.scaled s) p q = s ^ 2 * squaredGradient f p q := by
  simp only [squaredGradient, Matrix3.toMatrix_scaled, Matrix.transpose_smul, smul_mulVec,
    Pi.smul_apply, smul_eq_mul, mul_pow, mul_add, Finset.mul_sum]

variable [BEq K] [LawfulBEq K]

/-- **What the Sampson distance is**: the squared incidence over its squared gradient. -/
theorem sampson?_eq_ite [DecidableEq K] (f : Matrix3 K) (p q : Point K) :
    sampson? f p q =
      if squaredGradient f p q = 0 then none
      else some (incidenceForm f p q ^ 2 / squaredGradient f p q) := by
  have hgradient : squaredGradient f p q =
      (f.apply p).x * (f.apply p).x + (f.apply p).y * (f.apply p).y +
        (f.transpose.apply q).x * (f.transpose.apply q).x +
        (f.transpose.apply q).y * (f.transpose.apply q).y := by
    simp only [squaredGradient, ← Matrix3.toMatrix_transpose, ← Matrix3.components_apply,
      Fin.sum_univ_two, Fin.castSucc_zero, Fin.castSucc_one, Vector3.components,
      Matrix.cons_val_zero, Matrix.cons_val_one, pow_two]
    ring
  have hincidence : incidenceForm f p q =
      q.x * (f.apply p).x + q.y * (f.apply p).y + 1 * (f.apply p).z := by
    rw [incidenceForm, ← Matrix3.components_apply, vec3_dotProduct]
    rfl
  unfold sampson?
  simp only [beq_iff_eq, ← hgradient, ← hincidence, pow_two]

/-- The Sampson distance of a pair vanishes if one point lies on the line of the other and the
gradient does not vanish too. -/
theorem sampson?_eq_some_zero_iff (f : Matrix3 K) (p q : Point K) :
    sampson? f p q = some 0 ↔ incidenceForm f p q = 0 ∧ squaredGradient f p q ≠ 0 := by
  classical
  rw [sampson?_eq_ite]
  by_cases hgradient : squaredGradient f p q = 0
  · simp [hgradient]
  · rw [if_neg hgradient, Option.some.injEq, div_eq_zero_iff, or_iff_left hgradient,
      pow_eq_zero_iff two_ne_zero, and_iff_left hgradient]

/-- **The scale of a fundamental matrix does not matter.** Numerator and denominator are multiplied
by the same square. -/
theorem sampson?_scaled {s : K} (hs : s ≠ 0) (f : Matrix3 K) (p q : Point K) :
    sampson? (f.scaled s) p q = sampson? f p q := by
  classical
  have hsquare : s ^ 2 ≠ 0 := pow_ne_zero 2 hs
  rw [sampson?_eq_ite, sampson?_eq_ite, squaredGradient_scaled, incidenceForm_scaled, mul_pow,
    mul_div_mul_left _ _ hsquare]
  simp only [mul_eq_zero, hsquare, false_or]

/-- **The two images may trade places**, if the fundamental matrix is transposed. -/
theorem sampson?_transpose (f : Matrix3 K) (p q : Point K) :
    sampson? f.transpose q p = sampson? f p q := by
  classical
  rw [sampson?_eq_ite, sampson?_eq_ite, squaredGradient_transpose, incidenceForm_transpose]

end Sampson

/-! ## The transfer distance -/

section Transfer

variable {K : Type} [Field K]

/-- A vector is a multiple of the coordinates of a point if its last component says by what. -/
theorem components_eq_smul_iff (v : Vector3 K) (q : Point K) :
    (∃ l : K, l ≠ 0 ∧ v.components = l • q.homogeneous) ↔
      v.z ≠ 0 ∧ v.x / v.z = q.x ∧ v.y / v.z = q.y := by
  constructor
  · rintro ⟨l, hl, hv⟩
    have hx : v.x = l * q.x := congrFun hv 0
    have hy : v.y = l * q.y := congrFun hv 1
    have hz : v.z = l * 1 := congrFun hv 2
    rw [hx, hy, hz, mul_div_mul_left _ _ hl, mul_div_mul_left _ _ hl, div_one, div_one, mul_one]
    exact ⟨hl, rfl, rfl⟩
  · rintro ⟨hz, hx, hy⟩
    rw [div_eq_iff hz] at hx hy
    refine ⟨v.z, hz, ?_⟩
    ext i
    fin_cases i
    · exact hx.trans (mul_comm _ _)
    · exact hy.trans (mul_comm _ _)
    · exact (mul_one _).symm

variable [BEq K] [LawfulBEq K]

/-- **The scale of a homography does not matter.** It cancels in both quotients. -/
theorem transfer?_scaled {s : K} (hs : s ≠ 0) (h : Matrix3 K) (p q : Point K) :
    transfer? (h.scaled s) p q = transfer? h p q := by
  have hzero (z : K) : (s * z == 0) = (z == 0) := by
    rw [Bool.eq_iff_iff, beq_iff_eq, beq_iff_eq, mul_eq_zero, or_iff_right hs]
  unfold transfer?
  rw [Matrix3.apply_scaled]
  simp only [mul_div_mul_left _ _ hs, hzero]

variable [LinearOrder K] [IsStrictOrderedRing K]

/-- **The transfer distance vanishes for the point that the homography sends there**, and for no
other. A point that is sent to infinity has no distance. -/
theorem transfer?_eq_some_zero_iff (h : Matrix3 K) (p q : Point K) :
    transfer? h p q = some 0 ↔
      ∃ l : K, l ≠ 0 ∧ h.toMatrix *ᵥ p.homogeneous = l • q.homogeneous := by
  rw [← Matrix3.components_apply, components_eq_smul_iff]
  unfold transfer?
  by_cases hz : (h.apply p).z = 0
  · simp [hz]
  · -- A sum of two squares is zero only if both are.
    have hsquares (a b : K) : a * a + b * b = 0 ↔ a = 0 ∧ b = 0 := by
      simp only [mul_self_add_mul_self_eq_zero]
    simp only [beq_iff_eq, hz, if_false, Option.some.injEq, hsquares, sub_eq_zero, ne_eq,
      not_false_eq_true, true_and]

end Transfer

/-! ## Over the rationals -/

/-- **The residuals are right in exact arithmetic.** Over the rationals, for all matrices and
points: the Sampson distance is the squared incidence over its squared gradient, and infinite where
the gradient vanishes. Neither residual changes when the matrix is multiplied by a number other than
zero, and the Sampson distance does not change when the matrix is transposed and the points trade
places. The Sampson distance is zero if and only if the incidence is and the gradient is not; the
transfer distance is zero if and only if the homography sends the first point to the second. -/
theorem exact_residuals_geometric :
    (∀ (f : Matrix3 ℚ) (p q : Point ℚ),
      sampson? f p q =
        if squaredGradient f p q = 0 then none
        else some (incidenceForm f p q ^ 2 / squaredGradient f p q)) ∧
    (∀ s : ℚ, s ≠ 0 → ∀ (m : Matrix3 ℚ) (p q : Point ℚ),
      sampson? (m.scaled s) p q = sampson? m p q ∧
      transfer? (m.scaled s) p q = transfer? m p q) ∧
    (∀ (f : Matrix3 ℚ) (p q : Point ℚ), sampson? f.transpose q p = sampson? f p q) ∧
    (∀ (f : Matrix3 ℚ) (p q : Point ℚ),
      sampson? f p q = some 0 ↔ incidenceForm f p q = 0 ∧ squaredGradient f p q ≠ 0) ∧
    ∀ (h : Matrix3 ℚ) (p q : Point ℚ),
      transfer? h p q = some 0 ↔
        ∃ l : ℚ, l ≠ 0 ∧ h.toMatrix *ᵥ p.homogeneous = l • q.homogeneous := by
  refine ⟨sampson?_eq_ite, ?_, sampson?_transpose, sampson?_eq_some_zero_iff,
    transfer?_eq_some_zero_iff⟩
  intro s hs m p q
  exact ⟨sampson?_scaled hs m p q, transfer?_scaled hs m p q⟩

/-- The fundamental matrix of a camera that moved sideways by one. -/
def sidewaysStep : Matrix3 ℚ := ⟨0, 0, 0, 0, 0, -1, 0, 1, 0⟩

/-- Three rows apart, at every scale: half of the square. -/
theorem exact_residuals_geometric_sideways :
    sampson? (sidewaysStep.scaled (1 / 3)) ⟨10, 5⟩ ⟨42, 8⟩ = some (9 / 2) ∧
    sampson? sidewaysStep.transpose ⟨42, 8⟩ ⟨10, 5⟩ = some (9 / 2) := by
  obtain ⟨-, hscale, htranspose, -⟩ := exact_residuals_geometric
  have hvalue : sampson? sidewaysStep ⟨10, 5⟩ ⟨42, 8⟩ = some (9 / 2) := by decide +kernel
  exact ⟨(hscale (1 / 3) (by norm_num) _ _ _).1.trans hvalue,
    (htranspose _ _ _).trans hvalue⟩

end Residual

end FeatureMatching
