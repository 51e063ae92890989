import Mathlib
import FeatureMatching.Proofs.Dependence
import FeatureMatching.Proofs.Float.Scaling
import FeatureMatching.Proofs.NonFiniteData

/-!
# The scale of a fundamental matrix

A fundamental matrix is known up to scale, and in exact arithmetic the Sampson distance does not see
the scale. In binary64 it does not either as long as the computation stays in range: multiplying the
matrix by a power of two multiplies the lines, the gradient and the incidence by powers of two,
digit for digit, and the quotient is the same number (`Residual.sampson_eq_of_scaledBy`). In range
means that no product loses digits at the lower end of the format and nothing overflows
(`Residual.InRange`).

The gradient and the incidence are squared before they are divided, so the range of the entries is
about half of that of the format in each direction. For positions that are binary32 values it can be
said in advance: entries that are zero or between `2 ^ -187` and `2 ^ 251` in magnitude keep every
pair in range (`Residual.inRange_of_within`). Far outside those bounds the scale matters: with
entries around `2 ^ -600` the gradient vanishes, and then no pair is left.
-/

set_option autoImplicit false

namespace FeatureMatching

open Numeric

namespace Residual

/-! ## The two parts of the quotient -/

/-- The squared gradient, the denominator of the Sampson distance. -/
def gradient (f : Matrix3 Float) (p q : Point Float) : Float :=
  let line := f.apply p
  let back := f.transpose.apply q
  line.x * line.x + line.y * line.y + back.x * back.x + back.y * back.y

/-- The incidence `qᵀ F p`, whose square is the numerator. -/
def incidence (f : Matrix3 Float) (p q : Point Float) : Float :=
  let line := f.apply p
  q.x * line.x + q.y * line.y + 1 * line.z

theorem sampson?_eq (f : Matrix3 Float) (p q : Point Float) :
    sampson? f p q =
      if gradient f p q == 0 then none
      else some (incidence f p q * incidence f p q / gradient f p q) := rfl

/-- The products `a x` and `b y` lose no digits: each is normal or a multiple of the least
subnormal. -/
def ResolvesPair (a b x y : Float) : Prop :=
  Resolved .binary64 (value64 a * value64 x) ∧ Resolved .binary64 (value64 b * value64 y)

/-- **The computation stays in range**: no product loses digits, those by 1 aside, which cannot, and
neither the gradient nor the squared incidence overflows. -/
structure InRange (f : Matrix3 Float) (p q : Point Float) : Prop where
  line : ResolvesPair f.m00 f.m01 p.x p.y ∧ ResolvesPair f.m10 f.m11 p.x p.y ∧
    ResolvesPair f.m20 f.m21 p.x p.y
  back : ResolvesPair f.m00 f.m10 q.x q.y ∧ ResolvesPair f.m01 f.m11 q.x q.y
  pairing : ResolvesPair q.x q.y (f.apply p).x (f.apply p).y
  squares : ∀ x ∈ [(f.apply p).x, (f.apply p).y, (f.transpose.apply q).x, (f.transpose.apply q).y,
    incidence f p q], Resolved .binary64 (value64 x * value64 x)
  isFinite_gradient : (gradient f p q).isFinite = true
  isFinite_square : (incidence f p q * incidence f p q).isFinite = true

/-! ## Scaling -/

section Scaling

variable {k : Int} {f g : Matrix3 Float} {p q : Point Float} {a a' b b' c c' x y : Float}

/-- A product by 1 is exact. -/
theorem resolved_mul_one (x : Float) : Resolved .binary64 (value64 x * value64 1) := by
  rw [value64_one, mul_one]
  exact .inr (isMultiple_value64 x)

/-- A component of the image of a point scales with the row. -/
theorem scaledBy_row (ha : ScaledBy k a a') (hb : ScaledBy k b b') (hc : ScaledBy k c c')
    (h : ResolvesPair a b x y) (h' : ResolvesPair a' b' x y) :
    ScaledBy k (a * x + b * y + c * 1) (a' * x + b' * y + c' * 1) := by
  have hfirst := ha.mul (.refl x) h.1 h'.1
  have hsecond := hb.mul (.refl y) h.2 h'.2
  have hthird := hc.mul (.refl 1) (resolved_mul_one c) (resolved_mul_one c')
  rw [Int.add_zero] at hfirst hsecond hthird
  exact (hfirst.add hsecond).add hthird

/-- The line, the line back and the last component of the image scale with the matrix. -/
theorem scaledBy_components (h : List.Forall₂ (ScaledBy k) f.columns g.columns)
    (hf : InRange f p q) (hg : InRange g p q) :
    (ScaledBy k (f.apply p).x (g.apply p).x ∧ ScaledBy k (f.apply p).y (g.apply p).y ∧
      ScaledBy k (f.apply p).z (g.apply p).z) ∧
      ScaledBy k (f.transpose.apply q).x (g.transpose.apply q).x ∧
      ScaledBy k (f.transpose.apply q).y (g.transpose.apply q).y := by
  simp only [Matrix3.columns, List.forall₂_cons] at h
  obtain ⟨h00, h10, h20, h01, h11, h21, h02, h12, h22, -⟩ := h
  obtain ⟨fx, fy, fz⟩ := hf.line
  obtain ⟨gx, gy, gz⟩ := hg.line
  refine ⟨⟨?_, ?_, ?_⟩, ?_, ?_⟩
  · exact scaledBy_row h00 h01 h02 fx gx
  · exact scaledBy_row h10 h11 h12 fy gy
  · exact scaledBy_row h20 h21 h22 fz gz
  · exact scaledBy_row h00 h10 h20 hf.back.1 hg.back.1
  · exact scaledBy_row h01 h11 h21 hf.back.2 hg.back.2

theorem scaledBy_gradient (h : List.Forall₂ (ScaledBy k) f.columns g.columns)
    (hf : InRange f p q) (hg : InRange g p q) :
    ScaledBy (k + k) (gradient f p q) (gradient g p q) := by
  obtain ⟨⟨hx, hy, -⟩, hx', hy'⟩ := scaledBy_components h hf hg
  have hsquares := hf.squares
  have ksquares := hg.squares
  simp only [List.forall_mem_cons] at hsquares ksquares
  obtain ⟨fx, fy, fx', fy', -⟩ := hsquares
  obtain ⟨gx, gy, gx', gy', -⟩ := ksquares
  have hline := (hx.mul hx fx gx).add (hy.mul hy fy gy)
  exact (hline.add (hx'.mul hx' fx' gx')).add (hy'.mul hy' fy' gy')

theorem scaledBy_incidence (h : List.Forall₂ (ScaledBy k) f.columns g.columns)
    (hf : InRange f p q) (hg : InRange g p q) :
    ScaledBy k (incidence f p q) (incidence g p q) := by
  obtain ⟨⟨hx, hy, hz⟩, -⟩ := scaledBy_components h hf hg
  have hone (z : Float) : Resolved .binary64 (value64 1 * value64 z) :=
    mul_comm (value64 z) _ ▸ resolved_mul_one z
  have hfirst := (ScaledBy.refl q.x).mul hx hf.pairing.1 hg.pairing.1
  have hsecond := (ScaledBy.refl q.y).mul hy hf.pairing.2 hg.pairing.2
  have hthird := (ScaledBy.refl 1).mul hz (hone _) (hone _)
  rw [Int.zero_add] at hfirst hsecond hthird
  exact (hfirst.add hsecond).add hthird

/-- **The scale of the matrix does not matter in range.** The squared incidence and the gradient are
multiplied by the same power of two, so their quotient is the same number, and one is zero exactly
if the other is. -/
theorem sampson_eq_of_scaledBy (h : List.Forall₂ (ScaledBy k) f.columns g.columns)
    (hf : InRange f p q) (hg : InRange g p q) : sampson g p q = sampson f p q := by
  have hgradient := scaledBy_gradient h hf hg
  have hincidence := scaledBy_incidence h hf hg
  have hsquare : ScaledBy (k + k) (incidence f p q * incidence f p q)
      (incidence g p q * incidence g p q) :=
    hincidence.mul hincidence (hf.squares _ (by simp)) (hg.squares _ (by simp))
  have hvanish := hgradient.beq_zero hf.isFinite_gradient hg.isFinite_gradient
  unfold sampson
  by_cases hzero : (gradient f p q == 0) = true
  · rw [sampson?_eq, sampson?_eq, ← hvanish, if_pos hzero, if_pos hzero]
  · have hf' : sampson? f p q = some _ := (sampson?_eq f p q).trans (if_neg hzero)
    have hg' : sampson? g p q = some _ := (sampson?_eq g p q).trans (if_neg (hvanish ▸ hzero))
    obtain ⟨hnan, hnan', hposition⟩ := hsquare.position_div hgradient hf.isFinite_square
      hg.isFinite_square hf.isFinite_gradient hg.isFinite_gradient
      (mt (beq_zero_iff hf.isFinite_gradient).mpr hzero)
    -- Neither quotient has a sign, so one position is one number.
    rw [hf', hg', eq_of_position64_eq (hasSign_sampson? hf') (hasSign_sampson? hg') hnan hnan'
      hposition]

end Scaling

/-! ## Entries that stay in range -/

variable {f : Matrix3 Float} {p q : Point Float}

theorem within_one : Within 0 0 1 := by
  refine ⟨by decide +kernel, ?_, ?_⟩ <;> rw [value64_one]
  · exact ⟨1, by norm_num⟩
  · norm_num

/-- One component of the image of a point. -/
theorem within_row {a b c x y : Float} {d e m n : Int} (ha : Within d m a) (hb : Within d m b)
    (hc : Within d m c) (hx : Within e n x) (hy : Within e n y) (he : e ≤ 0) (hn : 0 ≤ n)
    (hlow : -1074 ≤ m) (hhigh : m + n + 1 + 1 ≤ 1023) :
    Within (d + e) (m + n + 1 + 1) (a * x + b * y + c * 1) := by
  have hlast := hc.mul within_one (by omega) (by omega)
  have hpair := (ha.mul hx (by omega) (by omega)).add (hb.mul hy (by omega) (by omega)) (by omega)
    (by omega)
  exact hpair.add (hlast.mono (by omega) (by omega)) (by omega) hhigh

/-- A point with coordinates of the size and the precision of binary32 values. -/
structure IsPosition (p : Point Float) : Prop where
  x : Within (-149) 128 p.x
  y : Within (-149) 128 p.y

theorem isPosition_widen {p : Point Float32} (hx : p.x.isFinite = true) (hy : p.y.isFinite = true) :
    IsPosition (p.map widen) := ⟨.widen hx, .widen hy⟩

theorem within_components (hf : ∀ x ∈ f.columns, Within (-239) 251 x) (hp : IsPosition p)
    (hq : IsPosition q) :
    (Within (-388) 381 (f.apply p).x ∧ Within (-388) 381 (f.apply p).y ∧
      Within (-388) 381 (f.apply p).z) ∧
      Within (-388) 381 (f.transpose.apply q).x ∧ Within (-388) 381 (f.transpose.apply q).y := by
  simp only [Matrix3.columns, List.forall_mem_cons] at hf
  obtain ⟨h00, h10, h20, h01, h11, h21, h02, h12, h22, -⟩ := hf
  have hrow {a b c : Float} {r : Point Float} (ha : Within (-239) 251 a) (hb : Within (-239) 251 b)
      (hc : Within (-239) 251 c) (hr : IsPosition r) :
      Within (-388) 381 (a * r.x + b * r.y + c * 1) :=
    within_row ha hb hc hr.x hr.y (by decide) (by decide) (by decide) (by decide)
  refine ⟨⟨?_, ?_, ?_⟩, ?_, ?_⟩
  · exact hrow h00 h01 h02 hp
  · exact hrow h10 h11 h12 hp
  · exact hrow h20 h21 h22 hp
  · exact hrow h00 h10 h20 hq
  · exact hrow h01 h11 h21 hq

theorem within_gradient (hf : ∀ x ∈ f.columns, Within (-239) 251 x) (hp : IsPosition p)
    (hq : IsPosition q) : Within (-776) 765 (gradient f p q) := by
  obtain ⟨⟨hx, hy, -⟩, hx', hy'⟩ := within_components hf hp hq
  have hsquare {x : Float} (h : Within (-388) 381 x) : Within (-776) 762 (x * x) := by
    have hproduct := h.mul h (by decide) (by decide)
    exact hproduct
  have hline := (hsquare hx).add (hsquare hy) (by decide) (by decide)
  have hthree := hline.add ((hsquare hx').mono (by decide) (by decide)) (by decide) (by decide)
  exact hthree.add ((hsquare hy').mono (by decide) (by decide)) (by decide) (by decide)

theorem within_incidence (hf : ∀ x ∈ f.columns, Within (-239) 251 x) (hp : IsPosition p)
    (hq : IsPosition q) : Within (-537) 511 (incidence f p q) := by
  obtain ⟨⟨hx, hy, hz⟩, -⟩ := within_components hf hp hq
  have hfirst := hq.x.mul hx (by decide) (by decide)
  have hsecond := hq.y.mul hy (by decide) (by decide)
  have hthird := within_one.mul hz (by decide) (by decide)
  exact (hfirst.add hsecond (by decide) (by decide)).add (hthird.mono (by decide) (by decide))
    (by decide) (by decide)

/-- **Moderate entries and binary32 coordinates stay in range.** The squared incidence sets both
bounds: it is a multiple of `2 ^ -1074`, and it is not above `2 ^ 1022`. -/
theorem inRange_of_within (hf : ∀ x ∈ f.columns, Within (-239) 251 x) (hp : IsPosition p)
    (hq : IsPosition q) : InRange f p q := by
  obtain ⟨⟨hx, hy, -⟩, hx', hy'⟩ := within_components hf hp hq
  have hgradient := within_gradient hf hp hq
  have hincidence := within_incidence hf hp hq
  simp only [Matrix3.columns, List.forall_mem_cons] at hf
  obtain ⟨h00, h10, h20, h01, h11, h21, -⟩ := hf
  have hpair {a b : Float} {r : Point Float} (ha : Within (-239) 251 a) (hb : Within (-239) 251 b)
      (hr : IsPosition r) : ResolvesPair a b r.x r.y :=
    ⟨ha.resolved_mul hr.x (by decide), hb.resolved_mul hr.y (by decide)⟩
  refine ⟨⟨?_, ?_, ?_⟩, ⟨?_, ?_⟩, ⟨?_, ?_⟩, ?_, hgradient.isFinite, ?_⟩
  · exact hpair h00 h01 hp
  · exact hpair h10 h11 hp
  · exact hpair h20 h21 hp
  · exact hpair h00 h10 hq
  · exact hpair h01 h11 hq
  · exact hq.x.resolved_mul hx (by decide)
  · exact hq.y.resolved_mul hy (by decide)
  · simp only [List.forall_mem_cons]
    exact ⟨hx.resolved_mul hx (by decide), hy.resolved_mul hy (by decide),
      hx'.resolved_mul hx' (by decide), hy'.resolved_mul hy' (by decide),
      hincidence.resolved_mul hincidence (by decide), by simp⟩
  · exact (hincidence.mul hincidence (by decide) (by decide)).isFinite

/-- A matrix whose entries are zero or between `2 ^ -187` and `2 ^ 251` in magnitude. -/
def IsModerate (f : Matrix3 Float) : Prop :=
  ∀ x ∈ f.columns, x.isFinite = true ∧ (value64 x = 0 ∨ 2 ^ (-187 : Int) ≤ |value64 x|) ∧
    |value64 x| ≤ 2 ^ (251 : Int)

theorem IsModerate.inRange (h : IsModerate f) {p q : Point Float32}
    (hfinite : ∀ x ∈ [p.x, p.y, q.x, q.y], x.isFinite = true) :
    InRange f (p.map widen) (q.map widen) := by
  simp only [List.forall_mem_cons] at hfinite
  obtain ⟨hpx, hpy, hqx, hqy, -⟩ := hfinite
  refine inRange_of_within (fun x hmem => ?_) (isPosition_widen hpx hpy) (isPosition_widen hqx hqy)
  obtain ⟨hx, hlow, hhigh⟩ := h x hmem
  exact .of_abs hx hlow hhigh

/-- Between positions that are binary32 values, finite or not, the residual of a moderate matrix
does not depend on its scale. -/
theorem sampson_widen_eq_of_scaledBy {k : Int} {g : Matrix3 Float}
    (h : List.Forall₂ (ScaledBy k) f.columns g.columns) (hf : IsModerate f) (hg : IsModerate g)
    (p q : Point Float32) :
    sampson g (p.map widen) (q.map widen) = sampson f (p.map widen) (q.map widen) := by
  by_cases hbad : ∃ x ∈ [p.x, p.y, q.x, q.y], x.isFinite = false
  · have hinfinite (m : Matrix3 Float) :=
      sampson_of_not_isFinite (f := m) (exists_not_isFinite_widen (.inr hbad))
    rw [hinfinite g, hinfinite f]
  · have hfinite : ∀ x ∈ [p.x, p.y, q.x, q.y], x.isFinite = true := by
      intro x hx
      by_contra hnot
      exact hbad ⟨x, hx, Bool.eq_false_iff.mpr hnot⟩
    exact sampson_eq_of_scaledBy h (hf.inRange hfinite) (hg.inRange hfinite)

end Residual

/-! ## Guided matching -/

section Guided

variable {f g : Matrix3 Float}

/-- A filter sees the fundamental matrix through the residuals of positions. -/
theorem Filter.rejects_congr_fundamental
    (h : ∀ p q : Point Float32, Residual.sampson g (p.map widen) (q.map widen) =
      Residual.sampson f (p.map widen) (q.map widen)) (geometry : TwoView) (maxError : Float) :
    (ofGeometry { geometry with fundamental := g } maxError).rejects =
      (ofGeometry { geometry with fundamental := f } maxError).rejects := by
  funext p q
  unfold ofGeometry
  split
  · simp only [rejects, residual?_epipolar, h]
  · rfl

theorem matchGuided_congr_fundamental [ArcCosine]
    (h : ∀ p q : Point Float32, Residual.sampson g (p.map widen) (q.map widen) =
      Residual.sampson f (p.map widen) (q.map widen)) (a b : Features) (geometry : TwoView)
    (o : Options) :
    matchGuided a b { geometry with fundamental := g } o =
      matchGuided a b { geometry with fundamental := f } o := by
  cases hviolation : o.violation? with
  | some violation =>
    rw [matchGuided_of_violation hviolation, matchGuided_of_violation hviolation]
  | none =>
    refine matchGuided_congr hviolation hviolation (.refl o) ?_ ?_ (.refl a) (.refl b)
    · rw [Filter.isSupported_ofGeometry, Filter.isSupported_ofGeometry]
    · exact Filter.rejects_congr_fundamental h geometry o.maxError

end Guided

namespace Residual

/-- **The scale of a fundamental matrix does not matter as long as the computation stays in range.**
Two matrices that differ by a power of two, exactly, give a pair the same residual, bit for bit. For
positions that are binary32 values it is enough that the entries are zero or between `2 ^ -187` and
`2 ^ 251` in magnitude, and then guided matching has the same outcome under both. -/
theorem scale_does_not_matter_in_range [ArcCosine] (k : Int) (f g : Matrix3 Float)
    (h : List.Forall₂ (ScaledBy k) f.columns g.columns) :
    (∀ p q : Point Float, InRange f p q → InRange g p q → sampson g p q = sampson f p q) ∧
    (IsModerate f → IsModerate g →
      (∀ p q : Point Float32, sampson g (p.map widen) (q.map widen) =
        sampson f (p.map widen) (q.map widen)) ∧
      ∀ (a b : Features) (geometry : TwoView) (o : Options),
        matchGuided a b { geometry with fundamental := g } o =
          matchGuided a b { geometry with fundamental := f } o) := by
  refine ⟨fun p q => sampson_eq_of_scaledBy h, fun hf hg => ?_⟩
  have hresidual := sampson_widen_eq_of_scaledBy h hf hg
  exact ⟨hresidual, matchGuided_congr_fundamental hresidual⟩

/-- The fundamental matrix of a shift along the rows, times `2 ^ k`: partners lie in one row. -/
def rowShift (k : Int) : Matrix3 Float :=
  ⟨0, 0, 0, 0, 0, nearest64 .negative 1 k, 0, nearest64 .positive 1 k, 0⟩

theorem scaledBy_rowShift {j k : Int} (hj : -1074 ≤ j) (hj' : j ≤ 1023) (hk : -1074 ≤ k)
    (hk' : k ≤ 1023) :
    List.Forall₂ (ScaledBy (k - j)) (rowShift j).columns (rowShift k).columns := by
  have hzero : ScaledBy (k - j) 0 0 := by
    intro _ _
    rw [value64_zero, mul_zero]
  have hentry (s : Float.Model.UnpackedFloat.Sign) :
      ScaledBy (k - j) (nearest64 s 1 j) (nearest64 s 1 k) := by
    intro _ _
    rw [(value64_nearest64 s hj hj').2, (value64_nearest64 s hk hk').2, mul_left_comm,
      ← zpow_add₀ two_ne_zero, Int.sub_add_cancel]
  simp only [rowShift, Matrix3.columns, List.forall₂_cons, List.Forall₂.nil, and_true]
  exact ⟨hzero, hzero, hzero, hzero, hzero, hentry _, hzero, hentry _, hzero⟩

/-- The entries of a shift are zero or the power of two. -/
theorem abs_rowShift {k : Int} (hlow : -1074 ≤ k) (hhigh : k ≤ 1023) :
    ∀ x ∈ (rowShift k).columns, x.isFinite = true ∧ (value64 x = 0 ∨ |value64 x| = 2 ^ k) := by
  have hzero : (0 : Float).isFinite = true ∧ (value64 0 = 0 ∨ |value64 0| = 2 ^ k) :=
    ⟨rfl, .inl value64_zero⟩
  have hentry (s : Float.Model.UnpackedFloat.Sign) : (nearest64 s 1 k).isFinite = true ∧
      (value64 (nearest64 s 1 k) = 0 ∨ |value64 (nearest64 s 1 k)| = 2 ^ k) := by
    obtain ⟨hfinite, hvalue⟩ := value64_nearest64 s hlow hhigh
    refine ⟨hfinite, .inr ?_⟩
    rw [hvalue, abs_mul, abs_of_pos (zpow_pos (two_pos (α := ℚ)) k)]
    cases s <;> simp [Float.Model.UnpackedFloat.Sign.apply]
  simp only [rowShift, Matrix3.columns, List.forall_mem_cons]
  exact ⟨hzero, hzero, hzero, hzero, hzero, hentry _, hzero, hentry _, hzero, by simp⟩

theorem isModerate_rowShift {k : Int} (hlow : -187 ≤ k) (hhigh : k ≤ 251) :
    IsModerate (rowShift k) := by
  intro x hmem
  obtain ⟨hfinite, hzero | hpower⟩ := abs_rowShift (by omega) (by omega) x hmem
  · exact ⟨hfinite, .inl hzero, by rw [hzero, abs_zero]; exact (zpow_pos two_pos _).le⟩
  · rw [hpower]
    exact ⟨hfinite, .inr (zpow_le_zpow_right₀ one_le_two hlow),
      zpow_le_zpow_right₀ one_le_two hhigh⟩

end Residual

/-- A camera that moved sideways, with its fundamental matrix at a given scale. -/
def TwoView.sideways (k : Int) : TwoView :=
  { TwoView.unknown with configuration := .uncalibrated, fundamental := Residual.rowShift k }

namespace Residual

theorem matchGuided_sideways :
    matchGuided .corners .corners (.sideways 0) .standard = .ok [⟨0, 0⟩, ⟨1, 1⟩] := by
  rw [matchGuided_of_valid Options.standard_valid rfl Features.aligned_corners
    Features.aligned_corners]
  exact congrArg Except.ok (by decide +kernel)

/-- Three rows apart, at two scales; and the corners, which lie in one row. -/
theorem scale_does_not_matter_in_range_rowShift :
    sampson (rowShift (-23)) ⟨10, 5⟩ ⟨42, 8⟩ = 4.5 ∧
      matchGuided .corners .corners (.sideways (-23)) .standard = .ok [⟨0, 0⟩, ⟨1, 1⟩] := by
  have hscaled := scaledBy_rowShift (j := 0) (k := -23) (by decide) (by decide) (by decide)
    (by decide)
  obtain ⟨hpairs, hmoderate⟩ := scale_does_not_matter_in_range _ _ _ hscaled
  have hunit := isModerate_rowShift (k := 0) (by decide) (by decide)
  have hsmall := isModerate_rowShift (k := -23) (by decide) (by decide)
  have hp : (⟨10, 5⟩ : Point Float) = Point.map widen ⟨10, 5⟩ := by decide +kernel
  have hq : (⟨42, 8⟩ : Point Float) = Point.map widen ⟨42, 8⟩ := by decide +kernel
  constructor
  · rw [hp, hq, hpairs _ _ (hunit.inRange (by decide +kernel)) (hsmall.inRange (by decide +kernel))]
    decide +kernel
  · rw [← matchGuided_sideways]
    exact (hmoderate hunit hsmall).2 .corners .corners (.sideways 0) .standard

/-- **A gradient that vanishes.** Scaled by `2 ^ -600` the same matrix still has entries that are
zero or normal, but their squares are below all subnormals: the pair three rows apart is infinitely
far from the model instead of 4.5, and no pair is left to match. -/
theorem vanishing_gradient_rejects :
    List.Forall₂ (ScaledBy (-600)) (rowShift 0).columns (rowShift (-600)).columns ∧
      (∀ x ∈ (rowShift 0).columns ++ (rowShift (-600)).columns,
        x.isFinite = true ∧ (value64 x = 0 ∨ 2 ^ (-1022 : Int) ≤ |value64 x|)) ∧
      sampson (rowShift 0) ⟨10, 5⟩ ⟨42, 8⟩ = 4.5 ∧
      sampson (rowShift (-600)) ⟨10, 5⟩ ⟨42, 8⟩ = infinity64 ∧
      matchGuided .corners .corners (.sideways 0) .standard = .ok [⟨0, 0⟩, ⟨1, 1⟩] ∧
      matchGuided .corners .corners (.sideways (-600)) .standard = .ok [] := by
  have hnormal {k : Int} (hlow : -1022 ≤ k) (hhigh : k ≤ 1023) : ∀ x ∈ (rowShift k).columns,
      x.isFinite = true ∧ (value64 x = 0 ∨ 2 ^ (-1022 : Int) ≤ |value64 x|) := by
    intro x hmem
    obtain ⟨hfinite, hzero | hpower⟩ := abs_rowShift (by omega) hhigh x hmem
    · exact ⟨hfinite, .inl hzero⟩
    · exact ⟨hfinite, .inr (hpower ▸ zpow_le_zpow_right₀ one_le_two hlow)⟩
  have hscaled := scaledBy_rowShift (j := 0) (k := -600) (by decide) (by decide) (by decide)
    (by decide)
  refine ⟨hscaled, ?_, by decide +kernel, by decide +kernel, matchGuided_sideways, ?_⟩
  · intro x hmem
    rcases List.mem_append.mp hmem with hmem | hmem
    · exact hnormal (by decide) (by decide) x hmem
    · exact hnormal (by decide) (by decide) x hmem
  · rw [matchGuided_of_valid Options.standard_valid rfl Features.aligned_corners
      Features.aligned_corners]
    exact congrArg Except.ok (by decide +kernel)

end Residual

end FeatureMatching
