/-!
# Similarity matrices

Entry `(i, j)` of a similarity matrix says how alike feature `i` of the first image and feature `j`
of the second are; 0 or less means that they cannot be matched. The entries are stored row after
row, and the type holds the one fact that makes an index into them safe: there are `rows * cols` of
them.

Sizes are numbers without a limit, and what happens where an allocation finds no room is left out
here: neither the entries of a matrix nor the choices of its rows are ever too many. The rows alone
can be, since a matrix with as many rows as a machine word counts and no columns has no entries.

Every matrix that the library builds goes through `ofFn`, so what an entry is can be read off
`get_ofFn` alone. Exchanging the two images is `transpose`.
-/

set_option autoImplicit false

namespace FeatureMatching

/-- The similarity of every feature of one image to every feature of another. -/
structure SimilarityMatrix where
  rows : Nat
  cols : Nat
  entries : Array Int32
  size_eq : entries.size = rows * cols
deriving DecidableEq

namespace SimilarityMatrix

/-- The matrix with the given entries, row after row; `none` unless there are `rows * cols`. -/
def ofArray? (rows cols : Nat) (entries : Array Int32) : Option SimilarityMatrix :=
  if h : entries.size = rows * cols then some ⟨rows, cols, entries, h⟩ else none

/-- An entry lies inside the storage. -/
theorem index_lt {rows cols : Nat} (r : Fin rows) (c : Fin cols) :
    r.val * cols + c.val < rows * cols :=
  Nat.lt_of_lt_of_le (Nat.add_lt_add_left c.isLt _)
    (by rw [← Nat.succ_mul]; exact Nat.mul_le_mul_right _ r.isLt)

/-- The row of a place in the storage. -/
def rowOf {rows cols : Nat} (k : Fin (rows * cols)) : Fin rows :=
  ⟨k.val / cols, Nat.div_lt_of_lt_mul (Nat.mul_comm rows cols ▸ k.isLt)⟩

/-- The column of a place in the storage. -/
def colOf {rows cols : Nat} (k : Fin (rows * cols)) : Fin cols :=
  ⟨k.val % cols, Nat.mod_lt _ (Nat.pos_of_mul_pos_left (Nat.lt_of_le_of_lt (Nat.zero_le _) k.isLt))⟩

/-- The matrix whose entries are given by a function. -/
def ofFn {rows cols : Nat} (f : Fin rows → Fin cols → Int32) : SimilarityMatrix where
  rows := rows
  cols := cols
  entries := .ofFn fun k => f (rowOf k) (colOf k)
  size_eq := Array.size_ofFn

/-- The entry of a pair of features. -/
def get (m : SimilarityMatrix) (r : Fin m.rows) (c : Fin m.cols) : Int32 :=
  have h : r.val * m.cols + c.val < m.entries.size := m.size_eq ▸ index_lt r c
  m.entries[r.val * m.cols + c.val]

/-- The entry at a row and a column, `none` outside the matrix. -/
def get? (m : SimilarityMatrix) (row col : Nat) : Option Int32 :=
  if h : row < m.rows ∧ col < m.cols then some (m.get ⟨row, h.1⟩ ⟨col, h.2⟩) else none

/-- The entries of a row, from the first column to the last. -/
def row (m : SimilarityMatrix) (r : Fin m.rows) : List Int32 := List.ofFn (m.get r)

/-- The part of the storage that a row of the given number takes up; `none` if the storage ends
before it does. Without columns every row is empty, whatever its number. -/
def slice? (m : SimilarityMatrix) (row : Nat) : Option (Array Int32) :=
  if (row + 1) * m.cols ≤ m.entries.size then
    some (m.entries.extract (row * m.cols) ((row + 1) * m.cols))
  else none

/-- The matrix with the roles of the two images exchanged. -/
def transpose (m : SimilarityMatrix) : SimilarityMatrix := ofFn fun c r => m.get r c

/-! ## What an entry is -/

/-- The row of an entry is found again from its place in the storage. -/
theorem rowOf_index {rows cols : Nat} (r : Fin rows) (c : Fin cols) :
    rowOf ⟨r.val * cols + c.val, index_lt r c⟩ = r := by
  refine Fin.ext ?_
  show (r.val * cols + c.val) / cols = r.val
  rw [Nat.mul_comm, Nat.mul_add_div c.pos, Nat.div_eq_of_lt c.isLt, Nat.add_zero]

/-- So is its column. -/
theorem colOf_index {rows cols : Nat} (r : Fin rows) (c : Fin cols) :
    colOf ⟨r.val * cols + c.val, index_lt r c⟩ = c := by
  refine Fin.ext ?_
  show (r.val * cols + c.val) % cols = c.val
  rw [Nat.mul_comm, Nat.mul_add_mod, Nat.mod_eq_of_lt c.isLt]

theorem get_ofFn {rows cols : Nat} (f : Fin rows → Fin cols → Int32) (r : Fin rows)
    (c : Fin cols) : (ofFn f).get r c = f r c := by
  simp only [get, ofFn, Array.getElem_ofFn, rowOf_index, colOf_index]

theorem get_transpose (m : SimilarityMatrix) (r : Fin m.rows) (c : Fin m.cols) :
    m.transpose.get c r = m.get r c :=
  get_ofFn _ c r

end SimilarityMatrix

end FeatureMatching
