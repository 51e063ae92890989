import Mathlib
import FeatureMatching.Similarity.Nearest

/-!
# What the scan of a row ends with

`Leaders.ofRow` reads a row once and keeps three values. This file says what they are without a
scan: the first place of the highest entry, that entry, and the highest of the **other** entries,
where zero takes part in both comparisons and so stands for "none of them is positive".

The invariant is `Leads`. It speaks of the columns seen so far, has one constructor for each of the
two states that the scan can be in, and is kept by every further column (`Leads.visit`). Everything
later is stated on a row given as a function of its column, where no list has to be indexed:
`Thresholds.choose_ofFn_eq_some_iff` is the only fact about the scan that the matching results use.
-/

set_option autoImplicit false

namespace FeatureMatching

/-! ## The highest entry -/

/-- The highest of some similarities, or 0 if none of them is positive. -/
def highest (entries : List Int32) : Int32 := entries.foldl max 0

theorem highest_append_singleton (entries : List Int32) (x : Int32) :
    highest (entries ++ [x]) = max (highest entries) x := by
  simp [highest]

theorem max_int32_le_iff {a b s : Int32} : max a b ≤ s ↔ a ≤ s ∧ b ≤ s := by
  show (if a ≤ b then b else a) ≤ s ↔ a ≤ s ∧ b ≤ s
  simp only [Int32.le_iff_toInt_le]
  split <;> omega

/-- **The highest entry is the least bound that is not negative.** Everything else about it follows
from this and antisymmetry. -/
theorem highest_le_iff {entries : List Int32} {s : Int32} :
    highest entries ≤ s ↔ 0 ≤ s ∧ ∀ x ∈ entries, x ≤ s := by
  -- The fold takes its last step at the end of the list, so that is where the induction is.
  induction entries using List.reverseRecOn with
  | nil => simp [highest]
  | append_singleton entries x ih =>
    rw [highest_append_singleton, max_int32_le_iff, ih]
    simp only [List.mem_append, List.mem_singleton]
    constructor
    · rintro ⟨⟨hs, hall⟩, hx⟩
      refine ⟨hs, fun y hy => ?_⟩
      rcases hy with hy | rfl
      · exact hall y hy
      · exact hx
    · rintro ⟨hs, hall⟩
      exact ⟨⟨hs, fun y hy => hall y (Or.inl hy)⟩, hall x (Or.inr rfl)⟩

theorem highest_nonneg (entries : List Int32) : 0 ≤ highest entries :=
  (highest_le_iff.mp (Int32.le_refl _)).1

theorem le_highest {entries : List Int32} {x : Int32} (h : x ∈ entries) : x ≤ highest entries :=
  (highest_le_iff.mp (Int32.le_refl _)).2 x h

theorem highest_eq_of_mem {entries : List Int32} {x : Int32} (hx : x ∈ entries) (hpos : 0 ≤ x)
    (hall : ∀ y ∈ entries, y ≤ x) : highest entries = x :=
  Int32.le_antisymm (highest_le_iff.mpr ⟨hpos, hall⟩) (le_highest hx)

theorem highest_eq_zero {entries : List Int32} (hall : ∀ x ∈ entries, x ≤ 0) :
    highest entries = 0 :=
  Int32.le_antisymm (highest_le_iff.mpr ⟨Int32.le_refl _, hall⟩) (highest_nonneg _)

theorem highest_eq_zero_or_mem (entries : List Int32) :
    highest entries = 0 ∨ highest entries ∈ entries := by
  induction entries using List.reverseRecOn with
  | nil => exact Or.inl rfl
  | append_singleton entries x ih =>
    rw [highest_append_singleton]
    show (if highest entries ≤ x then x else highest entries) = 0 ∨
      (if highest entries ≤ x then x else highest entries) ∈ entries ++ [x]
    split
    · simp
    · rcases ih with h | h
      · exact Or.inl h
      · simp [h]

theorem highest_eraseIdx_le_iff {entries : List Int32} {c : Nat} {s : Int32} :
    highest (entries.eraseIdx c) ≤ s ↔
      0 ≤ s ∧ ∀ (j : Nat) (hj : j < entries.length), j ≠ c → entries[j] ≤ s := by
  rw [highest_le_iff]
  refine and_congr_right fun _ => ?_
  constructor
  · intro hall j hj hne
    exact hall _ (List.mem_eraseIdx_iff_getElem.mpr ⟨j, hj, hne, rfl⟩)
  · intro hall x hx
    obtain ⟨j, hj, hne, rfl⟩ := List.mem_eraseIdx_iff_getElem.mp hx
    exact hall j hj hne

/-! ## The invariant of the scan -/

/-- What the leaders are when the columns in `seen` have been visited: either no entry was positive
and they are the initial ones, or they name the first place of the highest entry, that entry, and
the highest entry at the other places. -/
inductive Leads (seen : List Int32) : Leaders → Prop where
  | nobody (h : ∀ x ∈ seen, x ≤ 0) : Leads seen Leaders.none
  | somebody (c : Nat) (hc : c < seen.length) (positive : 0 < seen[c])
      (largest : ∀ x ∈ seen, x ≤ seen[c]) (first : ∀ (j : Nat) (hj : j < c), seen[j] < seen[c]) :
      Leads seen ⟨some c, seen[c], highest (seen.eraseIdx c)⟩

namespace Leads

/-- A column with a new highest entry takes the lead, and what led before comes second. -/
theorem overtaken {seen : List Int32} {x : Int32} (h : highest seen < x) :
    Leads (seen ++ [x]) ⟨some seen.length, x, highest seen⟩ := by
  have hlen : seen.length < (seen ++ [x]).length := by simp
  have hx : (seen ++ [x])[seen.length] = x := by simp
  have hbelow : ∀ y ∈ seen, y < x := fun y hy => Int32.lt_of_le_of_lt (le_highest hy) h
  have hlead := Leads.somebody seen.length hlen
    (by rw [hx]; exact Int32.lt_of_le_of_lt (highest_nonneg _) h)
    (by
      intro y hy
      rw [hx]
      rcases List.mem_append.mp hy with hy | hy
      · exact Int32.le_of_lt (hbelow y hy)
      · exact List.mem_singleton.mp hy ▸ Int32.le_refl x)
    (by
      intro j hj
      rw [hx, List.getElem_append_left hj]
      exact hbelow _ (List.getElem_mem hj))
  rw [hx] at hlead
  rwa [List.eraseIdx_append_of_length_le (Nat.le_refl _), Nat.sub_self, List.eraseIdx_zero,
    List.tail_cons, List.append_nil] at hlead

/-- A column that does not beat the best entry leaves the lead and takes part in the second place
only. -/
theorem followed {seen : List Int32} {x : Int32} {c : Nat} (hc : c < seen.length)
    (positive : 0 < seen[c]) (largest : ∀ y ∈ seen, y ≤ seen[c])
    (first : ∀ (j : Nat) (hj : j < c), seen[j] < seen[c]) (h : x ≤ seen[c]) :
    Leads (seen ++ [x]) ⟨some c, seen[c], max (highest (seen.eraseIdx c)) x⟩ := by
  have hlen : c < (seen ++ [x]).length := by
    rw [List.length_append]
    omega
  have hx : (seen ++ [x])[c] = seen[c] := List.getElem_append_left hc
  have hlead := Leads.somebody c hlen
    (by rw [hx]; exact positive)
    (by
      intro y hy
      rw [hx]
      rcases List.mem_append.mp hy with hy | hy
      · exact largest y hy
      · exact List.mem_singleton.mp hy ▸ h)
    (by
      intro j hj
      rw [hx, List.getElem_append_left (Nat.lt_trans hj hc)]
      exact first j hj)
  rw [hx] at hlead
  rwa [List.eraseIdx_append_of_lt_length hc, highest_append_singleton] at hlead

/-- **One more column keeps the invariant.** The three branches of `Leaders.visit` are the three
things that can happen to the second place: it inherits the best entry, it is raised, it stays. -/
theorem visit {seen : List Int32} {leaders : Leaders} (h : Leads seen leaders) (x : Int32) :
    Leads (seen ++ [x]) (leaders.visit seen.length x) := by
  cases h with
  | nobody hall =>
    -- Best and second are both zero here, so the two comparisons are the same one.
    have hzero : highest seen = 0 := highest_eq_zero hall
    unfold Leaders.visit
    by_cases hx : Leaders.none.best < x
    · rw [if_pos hx]
      have hover : Leads (seen ++ [x]) ⟨some seen.length, x, highest seen⟩ :=
        overtaken (by rw [hzero]; exact hx)
      rwa [hzero] at hover
    · rw [if_neg hx, if_neg (show ¬Leaders.none.second < x from hx)]
      refine .nobody fun y hy => ?_
      rcases List.mem_append.mp hy with hy | hy
      · exact hall y hy
      · exact List.mem_singleton.mp hy ▸ Int32.not_lt.mp hx
  | somebody c hc positive largest first =>
    have hbest : highest seen = seen[c] :=
      highest_eq_of_mem (List.getElem_mem hc) (Int32.le_of_lt positive) largest
    unfold Leaders.visit
    by_cases hx : seen[c] < x
    · rw [if_pos hx]
      exact hbest ▸ overtaken (hbest.symm ▸ hx)
    · rw [if_neg hx]
      have hkeep := followed hc positive largest first (Int32.not_lt.mp hx)
      -- The lead stays, and the second place is the larger of what it was and the new entry.
      by_cases hsecond : highest (seen.eraseIdx c) < x
      · rw [if_pos hsecond]
        rwa [show max (highest (seen.eraseIdx c)) x = x from
          if_pos (Int32.le_of_lt hsecond)] at hkeep
      · rw [if_neg hsecond]
        rwa [show max (highest (seen.eraseIdx c)) x = highest (seen.eraseIdx c) from
          Int32.le_antisymm (max_int32_le_iff.mpr ⟨Int32.le_refl _, Int32.not_lt.mp hsecond⟩)
            (max_int32_le_iff.mp (Int32.le_refl _)).1] at hkeep

theorem visitAll {seen : List Int32} {leaders : Leaders} (h : Leads seen leaders)
    (rest : List Int32) : Leads (seen ++ rest) (leaders.visitAll seen.length rest) := by
  induction rest generalizing seen leaders with
  | nil => simpa [Leaders.visitAll] using h
  | cons x rest ih =>
    have hnext := ih (h.visit x)
    rw [List.length_append, List.length_singleton, List.append_assoc] at hnext
    exact hnext

theorem ofRow (row : List Int32) : Leads row (Leaders.ofRow row) := by
  have hnone : Leads [] Leaders.none := .nobody (by simp)
  exact hnone.visitAll row

end Leads

/-! ## Rows as functions of the column -/

section Row

variable {n : Nat}

/-- The entry in a column is the largest, and the first of that size. -/
def FirstLargest (row : Fin n → Int32) (c : Fin n) : Prop :=
  (∀ j, row j ≤ row c) ∧ ∀ j, j < c → row j < row c

instance (row : Fin n → Int32) (c : Fin n) : Decidable (FirstLargest row c) :=
  inferInstanceAs (Decidable (_ ∧ _))

/-- The highest entry in the other columns, or 0 if none of them is positive. -/
def runnerUp (row : Fin n → Int32) (c : Fin n) : Int32 :=
  highest ((List.ofFn row).eraseIdx c)

theorem runnerUp_le_iff {row : Fin n → Int32} {c : Fin n} {s : Int32} :
    runnerUp row c ≤ s ↔ 0 ≤ s ∧ ∀ j, j ≠ c → row j ≤ s := by
  unfold runnerUp
  rw [highest_eraseIdx_le_iff]
  refine and_congr_right fun _ => ?_
  constructor
  · intro hall j hne
    have h := hall j (by simp) (fun hj => hne (Fin.ext hj))
    rwa [List.getElem_ofFn] at h
  · intro hall j hj hne
    rw [List.getElem_ofFn]
    exact hall _ fun h => hne (congrArg Fin.val h)

theorem runnerUp_nonneg (row : Fin n → Int32) (c : Fin n) : 0 ≤ runnerUp row c :=
  highest_nonneg _

theorem le_runnerUp {row : Fin n → Int32} {c j : Fin n} (h : j ≠ c) : row j ≤ runnerUp row c :=
  (runnerUp_le_iff.mp (Int32.le_refl _)).2 j h

theorem isGreatest_runnerUp (row : Fin n → Int32) (c : Fin n) :
    IsGreatest (insert 0 (row '' {j | j ≠ c})) (runnerUp row c) := by
  constructor
  · rcases highest_eq_zero_or_mem ((List.ofFn row).eraseIdx c) with h | h
    · exact Or.inl h
    · obtain ⟨j, hj, hne, heq⟩ := List.mem_eraseIdx_iff_getElem.mp h
      rw [List.length_ofFn] at hj
      rw [List.getElem_ofFn] at heq
      exact Or.inr ⟨⟨j, hj⟩, fun hjc => hne (congrArg Fin.val hjc), heq⟩
  · rintro x (rfl | ⟨j, hne, rfl⟩)
    · exact runnerUp_nonneg row c
    · exact le_runnerUp hne

theorem runnerUp_eq_zero_or_exists (row : Fin n → Int32) (c : Fin n) :
    runnerUp row c = 0 ∨ ∃ j, j ≠ c ∧ row j = runnerUp row c :=
  (isGreatest_runnerUp row c).1

/-- The runner-up is as large as the largest entry exactly if that entry occurs twice. -/
theorem runnerUp_eq_iff {row : Fin n → Int32} {c : Fin n} (positive : 0 < row c)
    (largest : ∀ j, row j ≤ row c) : runnerUp row c = row c ↔ ∃ j, j ≠ c ∧ row j = row c := by
  constructor
  · intro heq
    rcases runnerUp_eq_zero_or_exists row c with hzero | ⟨j, hne, hj⟩
    · rw [← heq, hzero] at positive
      exact absurd positive Int32.lt_irrefl
    · exact ⟨j, hne, hj.trans heq⟩
  · rintro ⟨j, hne, hj⟩
    refine Int32.le_antisymm (runnerUp_le_iff.mpr ⟨Int32.le_of_lt positive, ?_⟩) ?_
    · intro i _
      exact largest i
    · exact hj ▸ le_runnerUp hne

theorem FirstLargest.unique {row : Fin n → Int32} {c d : Fin n} (hc : FirstLargest row c)
    (hd : FirstLargest row d) : c = d := by
  rcases lt_trichotomy c d with h | h | h
  · exact absurd (hc.1 d) (Int32.not_le.mpr (hd.2 c h))
  · exact h
  · exact absurd (hd.1 c) (Int32.not_le.mpr (hc.2 d h))

/-- **The scan of a row finds its two largest entries.** Without a positive entry nobody leads. -/
theorem ofRow_ofFn (row : Fin n → Int32) :
    ((∀ j, row j ≤ 0) ∧ Leaders.ofRow (List.ofFn row) = Leaders.none) ∨
      ∃ c, 0 < row c ∧ FirstLargest row c ∧
        Leaders.ofRow (List.ofFn row) = ⟨some c, row c, runnerUp row c⟩ := by
  have h := Leads.ofRow (List.ofFn row)
  generalize hleaders : Leaders.ofRow (List.ofFn row) = leaders at h
  cases h with
  | nobody hall => exact Or.inl ⟨fun j => hall _ (List.mem_ofFn.mpr ⟨j, rfl⟩), rfl⟩
  | somebody c hc positive largest first =>
    have hn : c < n := by rwa [List.length_ofFn] at hc
    rw [List.getElem_ofFn] at positive largest first
    refine Or.inr ⟨⟨c, hn⟩, positive, ⟨fun j => largest _ (List.mem_ofFn.mpr ⟨j, rfl⟩), ?_⟩, ?_⟩
    · intro j hj
      have hlt := first j hj
      rwa [List.getElem_ofFn] at hlt
    · rw [List.getElem_ofFn]
      rfl

variable [ArcCosine]

/-- A column is the row's choice: it leads with a positive entry and passes both tests. -/
structure Thresholds.Accepts (t : Thresholds) (row : Fin n → Int32) (c : Fin n) : Prop where
  positive : 0 < row c
  leads : FirstLargest row c
  near : ¬t.maxDistance < angle (row c)
  clear : ¬t.maxRatio * angle (runnerUp row c) ≤ angle (row c)

/-- **What a row chooses.** -/
theorem Thresholds.choose_ofFn_eq_some_iff {t : Thresholds} {row : Fin n → Int32} {c : Nat} :
    t.choose (List.ofFn row) = some c ↔ ∃ h : c < n, t.Accepts row ⟨c, h⟩ := by
  rcases ofRow_ofFn row with ⟨hall, hnone⟩ | ⟨d, positive, leads, hsome⟩
  · constructor
    · intro h
      simp [choose, hnone, Leaders.none] at h
    · rintro ⟨h, haccepts⟩
      exact absurd haccepts.positive (Int32.not_lt.mpr (hall _))
  · constructor
    · intro h
      simp only [choose, hsome, tooFar, ambiguous] at h
      split at h
      · cases h
      · rename_i hpass
        simp only [Bool.or_eq_true, decide_eq_true_eq, not_or] at hpass
        obtain rfl : d.val = c := by simpa using h
        exact ⟨d.isLt, positive, leads, hpass.1, hpass.2⟩
    · rintro ⟨h, haccepts⟩
      -- The scan stopped at the first largest column, and there is only one.
      obtain rfl : (⟨c, h⟩ : Fin n) = d := haccepts.leads.unique leads
      simp [choose, hsome, tooFar, ambiguous, haccepts.near, haccepts.clear]

end Row

end FeatureMatching
