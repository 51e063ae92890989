import Mathlib
import FeatureMatching.Proofs.MutualMatching

/-!
# Blocks of entries

The type of matrices carries the proof that there are `rows * cols` entries, and an index into them
comes with a bound. In memory there is neither: two sizes and a block of entries (`Storage`), which
is read, cut and written by numbers. `none` is what becomes of an operation when one of its numbers
is out of range.

There are two loops over such blocks. One writes the rows of a matrix, one after the other
(`fill?`), the other exchanges rows and columns, entry by entry (`exchange?`). Both are given the
block that they write to, so it is not their business where that comes from. `zeros` is a fresh one
of any size; an allocation that can fail goes in front of the same two loops.

On the storage of a matrix no number is out of range: writing its rows gives its storage
(`fill?_zeros`), and exchanging rows and columns that of the transposed matrix (`exchange?_zeros`).
-/

set_option autoImplicit false

namespace FeatureMatching

/-! ## Loops with checked steps -/

section Loops

variable {α β σ : Type}

theorem mapM_ofFn {n : Nat} {step : α → Option β} {input : Fin n → α} {output : Fin n → β}
    (h : ∀ i, step (input i) = some (output i)) :
    (List.ofFn input).mapM step = some (List.ofFn output) := by
  induction n with
  | zero => simp
  | succ n ih =>
    rw [List.ofFn_succ, List.ofFn_succ, List.mapM_cons, h 0, ih fun i => h i.succ]
    rfl

theorem mapM_range {n : Nat} {step : Nat → Option β} {output : Fin n → β}
    (h : ∀ i : Fin n, step i = some (output i)) :
    (List.range n).mapM step = some (List.ofFn output) := by
  rw [← List.map_coe_finRange_eq_range, ← List.ofFn_eq_map]
  exact mapM_ofFn h

/-- A loop over the numbers below `n` ends, in a state that satisfies the invariant, if no step
that starts under the invariant stops or breaks it. -/
theorem exists_foldlM_range {step : σ → Nat → Option σ} {n : Nat} {start : σ}
    (Invariant : Nat → σ → Prop) (hstart : Invariant 0 start)
    (hstep : ∀ i < n, ∀ s, Invariant i s → ∃ s', step s i = some s' ∧ Invariant (i + 1) s') :
    ∃ s, (List.range n).foldlM step start = some s ∧ Invariant n s := by
  induction n with
  | zero => exact ⟨start, rfl, hstart⟩
  | succ n ih =>
    obtain ⟨s, hrun, hs⟩ := ih fun i hi => hstep i (Nat.lt_succ_of_lt hi)
    obtain ⟨s', hlast, hs'⟩ := hstep n (Nat.lt_succ_self n) s hs
    refine ⟨s', ?_, hs'⟩
    rw [List.range_succ, List.foldlM_append, hrun]
    simpa using hlast

end Loops

/-! ## The two loops -/

/-- A matrix as it lies in memory, row after row. Nothing is known of the number of entries. -/
structure Storage where
  rows : Nat
  cols : Nat
  data : Array Int32

/-- The storage of a matrix. -/
def SimilarityMatrix.storage (m : SimilarityMatrix) : Storage := ⟨m.rows, m.cols, m.entries⟩

namespace Storage

/-- A block of zeros. Sizes are natural numbers, and there is no limit on their product. -/
def zeros (rows cols : Nat) : Storage := ⟨rows, cols, .replicate (rows * cols) 0⟩

@[simp] theorem rows_zeros (rows cols : Nat) : (zeros rows cols).rows = rows := rfl

@[simp] theorem cols_zeros (rows cols : Nat) : (zeros rows cols).cols = cols := rfl

theorem size_zeros {rows cols : Nat} : (zeros rows cols).data.size = rows * cols :=
  Array.size_replicate

/-- The part of the block that a row takes up. -/
def row? (s : Storage) (row : Nat) : Option (Array Int32) :=
  if (row + 1) * s.cols ≤ s.data.size then
    some (s.data.extract (row * s.cols) ((row + 1) * s.cols))
  else none

/-- The number of parts that a block is cut into; a part has to have a positive length. -/
def parts? (size length : Nat) : Option Nat := if length = 0 then none else some (size / length)

/-- A row with values written over it from its start, as many as it has room for. -/
def overwrite (row values : List Int32) : List Int32 :=
  values.take row.length ++ row.drop values.length

/-- The block with its rows written over, one after the other. A block without entries is not cut,
as the length of a part would be zero; what a cut leaves over stays as it is. -/
def fill? (out : Storage) (values? : Nat → Option (List Int32)) : Option Storage :=
  if out.rows = 0 ∨ out.cols = 0 then some out
  else do
    let count ← parts? out.data.size out.cols
    let written ← (List.range count).mapM fun i =>
      (values? i).map (overwrite (out.data.extract (i * out.cols) ((i + 1) * out.cols)).toList)
    return { out with
      data := (written.flatten ++ out.data.toList.drop (count * out.cols)).toArray }

/-- Entries with one of them replaced, `none` past their end. -/
def write? (data : Array Int32) (place : Nat) (entry : Int32) : Option (Array Int32) :=
  if h : place < data.size then some (data.set place entry) else none

/-- One step of the exchange: the entry of a row and a column, written where the column is the
row. -/
def moveEntry? (s : Storage) (row : Nat) (data : Array Int32) (col : Nat) :
    Option (Array Int32) := do
  write? data (col * s.rows + row) (← s.data[row * s.cols + col]?)

/-- The entries of one block written to another, rows and columns exchanged. -/
def exchange? (s out : Storage) : Option Storage := do
  let data ← (List.range s.rows).foldlM
    (fun data row => (List.range s.cols).foldlM (s.moveEntry? row) data) out.data
  return { out with data }

theorem row?_storage (m : SimilarityMatrix) (r : Fin m.rows) :
    m.storage.row? r = some (m.row r).toArray :=
  m.slice?_eq_row r

end Storage

/-! ## Writing the rows of a matrix -/

namespace SimilarityMatrix

/-- The rows, one after the other, are the storage. -/
theorem flatten_rows (m : SimilarityMatrix) : (List.ofFn m.row).flatten = m.entries.toList := by
  have hinside (k : Fin (m.rows * m.cols)) : k.val < m.entries.size :=
    Nat.lt_of_lt_of_eq k.isLt m.size_eq.symm
  have hentries : m.entries.toList = List.ofFn fun k => m.entries[Fin.mk k.val (hinside k)] :=
    List.ext_getElem (by simp [m.size_eq]) (by simp)
  rw [hentries, List.ofFn_mul]
  rfl

end SimilarityMatrix

namespace Storage

theorem overwrite_of_length {row values : List Int32} (h : row.length = values.length) :
    overwrite row values = values := by
  unfold overwrite
  rw [h, List.take_length, ← h, List.drop_length, List.append_nil]

/-- A matrix without entries has the storage of a fresh block. -/
theorem zeros_of_empty {m : SimilarityMatrix} (h : m.rows = 0 ∨ m.cols = 0) :
    zeros m.rows m.cols = m.storage := by
  have hsize : m.rows * m.cols = 0 := Nat.mul_eq_zero.mpr h
  have hentries : m.entries = #[] := Array.eq_empty_of_size_eq_zero (m.size_eq.trans hsize)
  rw [zeros, SimilarityMatrix.storage, hentries, hsize]
  rfl

/-- A fresh block is cut into parts of the length of a row. -/
theorem length_part_zeros {rows cols row : Nat} (h : row < rows) :
    ((zeros rows cols).data.extract (row * cols) ((row + 1) * cols)).toList.length = cols := by
  have hle : (row + 1) * cols ≤ rows * cols := Nat.mul_le_mul_right _ h
  rw [Array.length_toList, Array.size_extract, size_zeros, Nat.min_eq_left hle, Nat.succ_mul,
    Nat.add_sub_cancel_left]

/-- **A block is filled with the rows of a matrix** if each of them is computed. -/
theorem fill?_zeros {m : SimilarityMatrix} {values? : Nat → Option (List Int32)}
    (h : ∀ r : Fin m.rows, values? r = some (m.row r)) :
    (zeros m.rows m.cols).fill? values? = some m.storage := by
  by_cases hempty : m.rows = 0 ∨ m.cols = 0
  · rw [← zeros_of_empty hempty]
    exact if_pos hempty
  · have hcols : m.cols ≠ 0 := fun hzero => hempty (.inr hzero)
    have hparts : parts? (m.rows * m.cols) m.cols = some m.rows := by
      rw [parts?, if_neg hcols, Nat.mul_div_cancel _ (Nat.pos_of_ne_zero hcols)]
    -- A part has the length of a row, so nothing of the part is left.
    have hwrite (r : Fin m.rows) : (values? r).map (overwrite
        ((zeros m.rows m.cols).data.extract (r.val * m.cols) ((r.val + 1) * m.cols)).toList) =
          some (m.row r) := by
      rw [h r, Option.map_some, overwrite_of_length]
      rw [length_part_zeros r.isLt, SimilarityMatrix.row, List.length_ofFn]
    have hrest : (zeros m.rows m.cols).data.toList.drop (m.rows * m.cols) = [] :=
      List.drop_eq_nil_of_le (Array.length_toList.trans size_zeros).le
    unfold fill?
    simp only [rows_zeros, cols_zeros, size_zeros, if_neg hempty, hparts, hrest,
      Option.bind_eq_bind, Option.bind_some, List.append_nil]
    rw [mapM_range hwrite, Option.bind_some, m.flatten_rows]
    rfl

end Storage

/-! ## Exchanging rows and columns -/

namespace SimilarityMatrix

/-- Two entries have one place in the storage only if they are the same entry. -/
theorem index_inj {rows cols : Nat} {r r' : Fin rows} {c c' : Fin cols}
    (h : r.val * cols + c.val = r'.val * cols + c'.val) : r = r' ∧ c = c' := by
  have hplace : (⟨_, index_lt r c⟩ : Fin (rows * cols)) = ⟨_, index_lt r' c'⟩ := Fin.ext h
  constructor
  · rw [← rowOf_index r c, hplace, rowOf_index]
  · rw [← colOf_index r c, hplace, colOf_index]

/-- The storage when the rows before `row` were moved, and the columns before `col` of this one. -/
structure Moved (m : SimilarityMatrix) (row col : Nat) (out : Array Int32) : Prop where
  size : out.size = m.cols * m.rows
  entry : ∀ (r : Fin m.rows) (c : Fin m.cols), (r.val < row ∨ r.val = row ∧ c.val < col) →
    out[c.val * m.rows + r.val]? = some (m.get r c)

variable {m : SimilarityMatrix}

theorem Moved.start : m.Moved 0 0 (.replicate (m.cols * m.rows) 0) where
  size := Array.size_replicate
  entry := fun r c h => absurd h (by omega)

theorem Moved.nextRow {row : Nat} {out : Array Int32} (h : m.Moved row m.cols out) :
    m.Moved (row + 1) 0 out where
  size := h.size
  entry := fun r c hrc => h.entry r c (by have := c.isLt; omega)

theorem Moved.nextEntry {row col : Nat} (hrow : row < m.rows) (hcol : col < m.cols)
    {out : Array Int32} (h : m.Moved row col out) :
    ∃ out', m.storage.moveEntry? row out col = some out' ∧ m.Moved row (col + 1) out' := by
  have hread : row * m.cols + col < m.entries.size :=
    m.size_eq ▸ index_lt ⟨row, hrow⟩ ⟨col, hcol⟩
  have hwrite : col * m.rows + row < out.size := h.size ▸ index_lt ⟨col, hcol⟩ ⟨row, hrow⟩
  refine ⟨out.set (col * m.rows + row) m.entries[row * m.cols + col], ?_, ?_, ?_⟩
  · show (do Storage.write? out (col * m.rows + row) (← m.entries[row * m.cols + col]?)) = _
    rw [Array.getElem?_eq_getElem hread, Option.bind_eq_bind, Option.bind_some, Storage.write?,
      dif_pos hwrite]
  · rw [Array.size_set, h.size]
  · intro r c hrc
    rw [Array.getElem?_set]
    split
    · rename_i hplace
      obtain ⟨rfl, rfl⟩ := index_inj (r := ⟨col, hcol⟩) (c := ⟨row, hrow⟩) hplace
      rfl
    · rename_i hplace
      -- Another place was written before this step.
      refine h.entry r c (hrc.imp_right fun ⟨hr, hc⟩ => ⟨hr, ?_⟩)
      refine Nat.lt_of_le_of_ne (Nat.le_of_lt_succ hc) fun hsame => hplace ?_
      rw [hr, hsame]

/-- A storage in which everything was moved is the one of the transposed matrix. -/
theorem Moved.eq_transpose {out : Array Int32} (h : m.Moved m.rows 0 out) :
    out = m.transpose.entries := by
  refine Array.ext (h.size.trans m.transpose.size_eq.symm) fun k hk _ => ?_
  let place : Fin (m.cols * m.rows) := ⟨k, h.size ▸ hk⟩
  have hentry := h.entry (colOf place) (rowOf place) (.inl (colOf place).isLt)
  have hplace : (rowOf place).val * m.rows + (colOf place).val = k := Nat.div_add_mod' k m.rows
  rw [hplace, Array.getElem?_eq_getElem hk, Option.some.injEq] at hentry
  rw [hentry]
  simp [transpose, ofFn, place]

end SimilarityMatrix

/-- **No read or write of the exchange is out of range**, and every entry is written. -/
theorem Storage.exchange?_zeros (m : SimilarityMatrix) :
    m.storage.exchange? (zeros m.cols m.rows) = some m.transpose.storage := by
  obtain ⟨out, hrun, hmoved⟩ := exists_foldlM_range (fun row out => m.Moved row 0 out)
    SimilarityMatrix.Moved.start fun row hrow out hout => by
      obtain ⟨out', hcols, hout'⟩ := exists_foldlM_range (m.Moved row) hout
        fun col hcol out hout => hout.nextEntry hrow hcol
      exact ⟨out', hcols, hout'.nextRow⟩
  show ((List.range m.rows).foldlM
    (fun data row => (List.range m.cols).foldlM (m.storage.moveEntry? row) data)
    (.replicate (m.cols * m.rows) 0)).bind _ = _
  rw [hrun, Option.bind_some, hmoved.eq_transpose]
  rfl

end FeatureMatching
