import Mathlib
import FeatureMatching.Proofs.FewerCompetitors

/-!
# What a row chooses, and against whom

A matrix is searched one row at a time. This file says what the loop over its rows leaves behind,
and what the two numbers that the scan of a row ends with stand for.

`Tally` is the loop as it runs: a slot for every row, all of them empty at first, and a counter. Its
invariant `Tallied` says that the slots of the rows seen so far hold their choices and that the
counter is the number of slots in use, so the counter is never kept apart from what it counts
(`Tally.ofMatrix_eq`).

The scan keeps one runner-up, an integer, and the ratio test multiplies its angle. That speaks for
**every** other column: the angle falls as the similarity grows and a rounded product with a
positive ratio is monotone, so a column that fails against any competitor fails against the highest
one, and the highest one is a competitor itself or the zero that a row without competitors is tested
against (`clear_runnerUp_iff`).
-/

set_option autoImplicit false

namespace FeatureMatching

open Numeric

/-! ## The loop over the rows -/

/-- The state of the loop over the rows of a matrix. -/
structure Tally where
  /-- For each row the column that it chose, if it was seen and chose one. -/
  slots : Array (Option Nat)
  /-- The number of rows that chose a column so far. -/
  count : Nat

namespace Tally

def start (rows : Nat) : Tally := ⟨.replicate rows none, 0⟩

/-- The slot of the next row is still empty, so passing the row over writes `none` into it. -/
theorem replicate_sub {rows seen : Nat} (h : seen < rows) :
    List.replicate (rows - seen) (none : Option Nat) =
      none :: List.replicate (rows - (seen + 1)) none := by
  rw [← List.replicate_succ]
  congr 1
  omega

variable [ArcCosine]

/-- The tally after one more row; a row that chooses nothing is passed over. -/
def visit (t : Thresholds) (tally : Tally) (row : Nat) (entries : List Int32) : Tally :=
  match t.choose entries with
  | some c => ⟨tally.slots.setIfInBounds row (some c), tally.count + 1⟩
  | none => tally

/-- The tally after more rows, the first of which has the given number. -/
def visitAll (t : Thresholds) (tally : Tally) (row : Nat) : List (List Int32) → Tally
  | [] => tally
  | entries :: rest => (tally.visit t row entries).visitAll t (row + 1) rest

def ofMatrix (t : Thresholds) (m : SimilarityMatrix) : Tally :=
  (start m.rows).visitAll t 0 (List.ofFn m.row)

end Tally

section Loop

variable [ArcCosine]

/-- What the tally of a matrix with `rows` rows is when the rows in `seen` have been visited. -/
structure Tallied (t : Thresholds) (rows : Nat) (seen : List (List Int32)) (tally : Tally) :
    Prop where
  slots : tally.slots.toList = seen.map t.choose ++ List.replicate (rows - seen.length) none
  count : tally.count = (seen.map t.choose).countP Option.isSome

namespace Tallied

variable {t : Thresholds} {rows : Nat} {seen : List (List Int32)} {tally : Tally}

theorem start (t : Thresholds) (rows : Nat) : Tallied t rows [] (Tally.start rows) where
  slots := by simp [Tally.start]
  count := by simp [Tally.start]

theorem visit (h : Tallied t rows seen tally) (hseen : seen.length < rows)
    (entries : List Int32) :
    Tallied t rows (seen ++ [entries]) (tally.visit t seen.length entries) := by
  unfold Tally.visit
  cases hchoice : t.choose entries with
  | none =>
    constructor
    · simp [h.slots, Tally.replicate_sub hseen, hchoice]
    · simp [h.count, hchoice]
  | some c =>
    constructor
    · have hlength : (seen.map t.choose).length = seen.length := List.length_map t.choose
      rw [Array.toList_setIfInBounds, h.slots, Tally.replicate_sub hseen,
        List.set_append_right _ _ hlength.le, hlength, Nat.sub_self, List.set_cons_zero]
      simp [hchoice]
    · simp [h.count, hchoice]

theorem visitAll (h : Tallied t rows seen tally) (rest : List (List Int32))
    (hrows : seen.length + rest.length = rows) :
    Tallied t rows (seen ++ rest) (tally.visitAll t seen.length rest) := by
  induction rest generalizing seen tally with
  | nil => simpa [Tally.visitAll] using h
  | cons entries rest ih =>
    rw [List.length_cons] at hrows
    have hnext := ih (h.visit (by omega) entries) (by simp; omega)
    rw [List.length_append, List.length_singleton, List.append_assoc] at hnext
    exact hnext

theorem ofMatrix (t : Thresholds) (m : SimilarityMatrix) :
    Tallied t m.rows (List.ofFn m.row) (Tally.ofMatrix t m) :=
  (start t m.rows).visitAll (List.ofFn m.row) (by simp)

end Tallied

/-- **The loop over the rows ends with the choices and their number.** -/
theorem Tally.ofMatrix_eq (t : Thresholds) (m : SimilarityMatrix) :
    Tally.ofMatrix t m = ⟨(Choices.ofMatrix t m).chosen, (Choices.ofMatrix t m).count⟩ := by
  have h := Tallied.ofMatrix t m
  have hchosen : (Choices.ofMatrix t m).chosen.toList = (List.ofFn m.row).map t.choose := by
    simp [Choices.ofMatrix, List.map_ofFn, Function.comp_def]
  have hslots : (Tally.ofMatrix t m).slots = (Choices.ofMatrix t m).chosen := by
    apply Array.toList_inj.mp
    rw [h.slots, hchosen]
    simp
  have hcount : (Tally.ofMatrix t m).count = (Choices.ofMatrix t m).count := by
    rw [h.count, ← hchosen, Array.countP_toList]
    rfl
  rw [← hslots, ← hcount]

end Loop

/-! ## The two largest entries -/

theorem column_ofRow_eq_none_iff {n : Nat} {row : Fin n → Int32} :
    (Leaders.ofRow (List.ofFn row)).column = none ↔ ∀ c, row c ≤ 0 := by
  rcases ofRow_ofFn row with ⟨hall, hnone⟩ | ⟨c, positive, -, hsome⟩
  · simp [hnone, Leaders.none, hall]
  · simp only [hsome, reduceCtorEq, false_iff, not_forall, Int32.not_le]
    exact ⟨c, positive⟩

/-- **The scan of a row finds its two largest entries, and the loop over the rows counts what they
choose.** A row is read as a part of the storage. Without a positive entry nobody leads. Otherwise
the leader is the first place of the largest entry, and the second entry is the greatest of the
other ones and 0: it equals the largest one exactly if that occurs twice. Whatever the thresholds
are, the loop ends with one slot for each row, with columns of the matrix in them, and its counter
is the number of slots that are not empty; these are the choices and the number that a search goes
on with. -/
theorem scan_finds_two_largest [ArcCosine] (m : SimilarityMatrix) :
    (∀ r : Fin m.rows,
      m.slice? r = some (m.row r).toArray ∧
      ((Leaders.ofRow (m.row r)).column = none ↔ ∀ c, m.get r c ≤ 0) ∧
      (Leaders.ofRow (m.row r) = Leaders.none ∨
        ∃ (c : Fin m.cols) (second : Int32),
          Leaders.ofRow (m.row r) = ⟨some c.val, m.get r c, second⟩ ∧ 0 < m.get r c ∧
          FirstLargest (m.get r) c ∧
          IsGreatest (insert 0 (m.get r '' {j | j ≠ c})) second ∧
          (second = m.get r c ↔ ∃ j, j ≠ c ∧ m.get r j = m.get r c))) ∧
    ∀ t : Thresholds,
      (Tally.ofMatrix t m).slots.size = m.rows ∧
      (∀ c, some c ∈ (Tally.ofMatrix t m).slots → c < m.cols) ∧
      (Tally.ofMatrix t m).count = (Tally.ofMatrix t m).slots.countP Option.isSome ∧
      Tally.ofMatrix t m = ⟨(Choices.ofMatrix t m).chosen, (Choices.ofMatrix t m).count⟩ := by
  constructor
  · intro r
    refine ⟨m.slice?_eq_row r, column_ofRow_eq_none_iff, ?_⟩
    rcases ofRow_ofFn (m.get r) with ⟨-, hnone⟩ | ⟨c, positive, leads, hsome⟩
    · exact Or.inl hnone
    · exact Or.inr ⟨c, _, hsome, positive, leads, isGreatest_runnerUp _ _,
        runnerUp_eq_iff positive leads.1⟩
  · intro t
    rw [Tally.ofMatrix_eq]
    refine ⟨Choices.size_chosen_ofMatrix t m, ?_, rfl, rfl⟩
    intro c hc
    obtain ⟨r, hr, heq⟩ := Array.mem_iff_getElem.mp hc
    have hof : (Choices.ofMatrix t m).of r = some c := by
      simp [Choices.of, Array.getElem?_eq_getElem hr, heq]
    obtain ⟨-, hinside, -⟩ := Choices.of_ofMatrix_eq_some_iff.mp hof
    exact hinside

/-- The first of two equal entries leads, and the other one comes second. -/
example : Leaders.ofRow [100, 200000, -3, 200000] = ⟨some 1, 200000, 200000⟩ := by decide

/-! ## The ratio test against every competitor -/

section Competitors

variable [ArcCosine] [ArcCosine.Lawful] {t : Thresholds} {n : Nat} {row : Fin n → Int32} {c : Fin n}

/-- **Passing against the runner-up is passing against everybody.** -/
theorem clear_runnerUp_iff (row : Fin n → Int32) (c : Fin n) {ratio : Float32}
    (hratio : ¬ratio ≤ -infinity32) (best : Int32) :
    ¬ratio * angle (runnerUp row c) ≤ angle best ↔
      ¬ratio * angle 0 ≤ angle best ∧ ∀ j, j ≠ c → ¬ratio * angle (row j) ≤ angle best := by
  constructor
  · intro hclear
    constructor
    · intro hambiguous
      exact hclear (ratio_mul_angle_le_of_le hratio (runnerUp_nonneg row c) hambiguous)
    · intro j hne hambiguous
      exact hclear (ratio_mul_angle_le_of_le hratio (le_runnerUp hne) hambiguous)
  · rintro ⟨hzero, hall⟩
    rcases runnerUp_eq_zero_or_exists row c with h | ⟨j, hne, h⟩
    · rw [h]
      exact hzero
    · rw [← h]
      exact hall j hne

theorem Thresholds.accepts_iff_clear (hpos : 0 < t.maxRatio) :
    t.Accepts row c ↔ 0 < row c ∧ FirstLargest row c ∧ ¬t.maxDistance < angle (row c) ∧
      ¬t.maxRatio * angle 0 ≤ angle (row c) ∧
      ∀ j, j ≠ c → ¬t.maxRatio * angle (row j) ≤ angle (row c) := by
  have hclear := clear_runnerUp_iff row c (not_le_neg_infinity32 hpos) (row c)
  constructor
  · intro h
    exact ⟨h.positive, h.leads, h.near, hclear.mp h.clear⟩
  · rintro ⟨positive, leads, near, hall⟩
    exact ⟨positive, leads, near, hclear.mpr hall⟩

/-- With a finite ratio the product is a number, and failing to reach it is being below it. -/
theorem lt_ratio_mul_angle {ratio : Float32} (hratio : ratio.isFinite = true) {s best : Int32}
    (hclear : ¬ratio * angle s ≤ angle best) : angle best < ratio * angle s :=
  lt_of_not_le32 (position32_mul hratio (isFinite_angle s)).1 (isNaN_angle best) hclear

theorem Thresholds.not_accepts_of_twice (hpos : 0 < t.maxRatio) (hle : t.maxRatio ≤ 1)
    {i j : Fin n} (hne : i ≠ j) (heq : row i = row j) (largest : ∀ k, row k ≤ row i) :
    ¬t.Accepts row c := by
  intro h
  -- One of the two is not the choice, and it would have to be below it.
  by_cases hi : i = c
  · subst hi
    have hlt := h.lt_of_ne hpos hle hne.symm
    rw [heq] at hlt
    exact Int32.lt_irrefl hlt
  · have hlt := h.lt_of_ne hpos hle hi
    exact absurd (largest c) (Int32.not_le.mpr hlt)

theorem Thresholds.not_accepts_of_full (hpos : 0 < t.maxRatio) (hle : t.maxRatio ≤ 1)
    {i j : Fin n} (hne : i ≠ j) (hi : 262144 ≤ row i) (hj : 262144 ≤ row j) :
    ¬t.Accepts row c := by
  intro h
  have hbest : 262144 ≤ row c := Int32.le_trans hi (h.leads.1 i)
  have hsecond : 262144 ≤ runnerUp row c := by
    by_cases hic : i = c
    · subst hic
      exact Int32.le_trans hj (le_runnerUp hne.symm)
    · exact Int32.le_trans hi (le_runnerUp hic)
  -- Both angles are the same, and a part of an angle is not above it.
  have hself := ratio_mul_angle_le_self hpos hle (runnerUp row c)
  obtain ⟨⟨hproduct, -⟩, hposition⟩ := le_iff_position32.mp hself
  refine h.clear (le_iff_position32.mpr ⟨⟨hproduct, isNaN_angle _⟩, ?_⟩)
  rwa [position32_angle_of_full hsecond hbest] at hposition

end Competitors

namespace SimilarityMatrix

variable [ArcCosine]

theorem of_ofMatrix_iff_accepts {m : SimilarityMatrix} {t : Thresholds} {r : Fin m.rows}
    {c : Fin m.cols} : (Choices.ofMatrix t m).of r = some c.val ↔ t.Accepts (m.get r) c := by
  rw [Choices.of_ofMatrix_eq_some_iff]
  constructor
  · rintro ⟨_, _, h⟩
    exact h
  · intro h
    exact ⟨r.isLt, c.isLt, h⟩

theorem of_ofMatrix_eq_none {m : SimilarityMatrix} {t : Thresholds} {r : Fin m.rows}
    (h : ∀ c, ¬t.Accepts (m.get r) c) : (Choices.ofMatrix t m).of r = none := by
  cases hof : (Choices.ofMatrix t m).of r with
  | none => rfl
  | some c =>
    obtain ⟨_, hc, haccepts⟩ := Choices.of_ofMatrix_eq_some_iff.mp hof
    exact absurd haccepts (h ⟨c, hc⟩)

end SimilarityMatrix

/-- **The ratio test holds against every competitor.** With a positive ratio, a row chooses a column
exactly if that is the first place of its largest entry, the entry is positive, it is not too far,
and its angle does not reach the ratio times the angle of any other column, nor of an entry of 0. If
the ratio is finite, the angle is strictly below all these products. With a ratio of at most 1 a row
whose largest entry occurs twice chooses nothing, and neither does one with two entries that count
as equal descriptors. The arc cosine is any lawful one. -/
theorem choice_clear_of_every_competitor [ArcCosine] [ArcCosine.Lawful] (m : SimilarityMatrix)
    (t : Thresholds) (hpos : 0 < t.maxRatio) (r : Fin m.rows) :
    (∀ c : Fin m.cols, (Choices.ofMatrix t m).of r = some c.val ↔
      0 < m.get r c ∧ FirstLargest (m.get r) c ∧ ¬t.maxDistance < angle (m.get r c) ∧
        ¬t.maxRatio * angle 0 ≤ angle (m.get r c) ∧
        ∀ j, j ≠ c → ¬t.maxRatio * angle (m.get r j) ≤ angle (m.get r c)) ∧
    (t.maxRatio.isFinite = true → ∀ c : Fin m.cols, (Choices.ofMatrix t m).of r = some c.val →
      angle (m.get r c) < t.maxRatio * angle 0 ∧
        ∀ j, j ≠ c → angle (m.get r c) < t.maxRatio * angle (m.get r j)) ∧
    (t.maxRatio ≤ 1 →
      ((∃ i j, i ≠ j ∧ m.get r i = m.get r j ∧ ∀ k, m.get r k ≤ m.get r i) ∨
        ∃ i j, i ≠ j ∧ 262144 ≤ m.get r i ∧ 262144 ≤ m.get r j) →
      (Choices.ofMatrix t m).of r = none) := by
  refine ⟨?_, ?_, ?_⟩
  · intro c
    rw [SimilarityMatrix.of_ofMatrix_iff_accepts, Thresholds.accepts_iff_clear hpos]
  · intro hfinite c hc
    rw [SimilarityMatrix.of_ofMatrix_iff_accepts, Thresholds.accepts_iff_clear hpos] at hc
    obtain ⟨-, -, -, hzero, hall⟩ := hc
    exact ⟨lt_ratio_mul_angle hfinite hzero, fun j hne => lt_ratio_mul_angle hfinite (hall j hne)⟩
  · rintro hle (⟨i, j, hne, heq, largest⟩ | ⟨i, j, hne, hi, hj⟩)
    · exact SimilarityMatrix.of_ofMatrix_eq_none fun c =>
        Thresholds.not_accepts_of_twice hpos hle hne heq largest
    · exact SimilarityMatrix.of_ofMatrix_eq_none fun c =>
        Thresholds.not_accepts_of_full hpos hle hne hi hj

/-- Three rows: a clear choice beside two competitors, a tie, and two entries past the clamp. -/
def SimilarityMatrix.contested : SimilarityMatrix :=
  ofFn fun (r : Fin 3) (c : Fin 3) =>
    if r = 0 then (if c = 1 then 250000 else 100)
    else if r = 1 then (if c = 2 then 7 else 200000)
    else if c = 0 then 0 else 262144 + Int32.ofNat c

theorem choice_clear_of_every_competitor_contested :
    (Choices.ofMatrix Options.standard.thresholds .contested).of 0 = some 1 ∧
    angle 250000 < Options.standard.maxRatio * angle 100 ∧
    (Choices.ofMatrix Options.standard.thresholds .contested).of 1 = none ∧
    (Choices.ofMatrix Options.standard.thresholds .contested).of 2 = none := by
  have hpos : 0 < Options.standard.thresholds.maxRatio := by decide +kernel
  have hle : Options.standard.thresholds.maxRatio ≤ 1 := by decide +kernel
  have hne {i j : Fin 3} (h : i.val ≠ j.val) : i ≠ j := Fin.ne_of_val_ne h
  have hleads : FirstLargest (fun j : Fin 3 => SimilarityMatrix.contested.get (0 : Fin 3) j) 1 := by
    decide
  have hclear : ∀ j : Fin 3, j ≠ 1 → ¬Options.standard.thresholds.maxRatio *
      angle (SimilarityMatrix.contested.get (0 : Fin 3) j) ≤ angle 250000 := by decide +kernel
  obtain ⟨hchoice, hfinite, -⟩ :=
    choice_clear_of_every_competitor .contested Options.standard.thresholds hpos (0 : Fin 3)
  obtain ⟨-, -, htie⟩ :=
    choice_clear_of_every_competitor .contested Options.standard.thresholds hpos (1 : Fin 3)
  obtain ⟨-, -, hfull⟩ :=
    choice_clear_of_every_competitor .contested Options.standard.thresholds hpos (2 : Fin 3)
  have hfirst : (Choices.ofMatrix Options.standard.thresholds .contested).of 0 = some 1 :=
    (hchoice (1 : Fin 3)).mpr ⟨by decide, hleads, by decide +kernel, by decide +kernel, hclear⟩
  refine ⟨hfirst, (hfinite (by decide +kernel) (1 : Fin 3) hfirst).2 (2 : Fin 3) (hne (by decide)),
    htie hle (Or.inl ⟨(0 : Fin 3), (1 : Fin 3), hne (by decide), by decide, by decide⟩),
    hfull hle (Or.inr ⟨(1 : Fin 3), (2 : Fin 3), hne (by decide), by decide, by decide⟩)⟩

end FeatureMatching
