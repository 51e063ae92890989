import Mathlib
import FeatureMatching.Proofs.CheckedRun
import FeatureMatching.Proofs.Exchange

/-!
# Matrices in memory

Every operation on matrices allocates a block of its own and writes it by numbers. The loops are
those of `Storage.fill?` and `Storage.exchange?`; what is added here is the allocation in front of
them, which stops if the product of two sizes overflows, that is, reaches `limit` (`zeros?`). An
index that is in range needs no check for overflow: it is below the number of entries.

Each operation on the storage of a matrix is the storage of what the operation on matrices gives
(`compared?_eq`, `guided?_eq`, `transpose?_storage`, `get?_storage`), so it is never out of range.
By induction, the storages that any sequence of operations can build are those of the matrices
(`Storage.built_iff`), and what holds of all matrices holds of them (`Storage.Rectangular`).
-/

set_option autoImplicit false

namespace FeatureMatching

namespace Storage

section Operations

variable (limit : Nat)

/-- A product of sizes, if it does not overflow. -/
def product? (rows cols : Nat) : Option Nat :=
  if rows * cols < limit then some (rows * cols) else none

/-- A block of zeros, if its size does not overflow. -/
def zeros? (rows cols : Nat) : Option Storage :=
  (product? limit rows cols).map fun _ => zeros rows cols

/-- The given entries, if their number is right. -/
def ofArray? (rows cols : Nat) (data : Array Int32) : Option Storage := do
  if (← product? limit rows cols) = data.size then some ⟨rows, cols, data⟩ else none

/-- The entry at a row and a column, found by a read that can be out of range; `some none` outside
the sizes, where nothing is read. -/
def get? (s : Storage) (row col : Nat) : Option (Option Int32) :=
  if row < s.rows ∧ col < s.cols then (s.data[row * s.cols + col]?).map some else some none

/-- Rows and columns exchanged, in a new block. -/
def transpose? (s : Storage) : Option Storage := do
  s.exchange? (← zeros? limit s.cols s.rows)

/-- The similarities of two lists of descriptors. -/
def compared? (a b : Array Descriptor) : Option Storage := do
  (← zeros? limit a.size b.size).fill? (comparedRow? a b)

/-- The similarities of two images, zero where the test rejects the pair; a fault if one of them is
misaligned. -/
def guided? (rejects : Point Float32 → Point Float32 → Bool) (a b : Features) :
    Option (Except Fault Storage) :=
  if ¬a.Aligned then some (.error (.misaligned .first a.keypoints.size a.descriptors.size))
  else if ¬b.Aligned then
    some (.error (.misaligned .second b.keypoints.size b.descriptors.size))
  else do
    let out ← zeros? limit a.descriptors.size b.descriptors.size
    return .ok (← out.fill? (maskedRow? rejects a b))

/-- The storages that a sequence of operations can build. -/
inductive Built : Storage → Prop
  | given {rows cols : Nat} {data : Array Int32} {s : Storage}
      (h : ofArray? limit rows cols data = some s) : Built s
  | transposed {s t : Storage} (hs : Built s) (h : s.transpose? limit = some t) : Built t
  | compared {a b : Array Descriptor} {s : Storage} (h : compared? limit a b = some s) : Built s
  | guided {rejects : Point Float32 → Point Float32 → Bool} {a b : Features} {s : Storage}
      (h : guided? limit rejects a b = some (.ok s)) : Built s

end Operations

/-! ## Operations on the storage of a matrix -/

section Represented

variable {limit : Nat} {m : SimilarityMatrix}

theorem product?_eq_some_iff {rows cols size : Nat} :
    product? limit rows cols = some size ↔ rows * cols < limit ∧ rows * cols = size := by
  unfold product?
  split
  · rename_i h
    simp [h]
  · rename_i h
    simp [h]

theorem zeros?_of_lt {rows cols : Nat} (h : rows * cols < limit) :
    zeros? limit rows cols = some (zeros rows cols) := by
  simp [zeros?, product?, h]

theorem zeros?_of_not_lt {rows cols : Nat} (h : ¬rows * cols < limit) :
    zeros? limit rows cols = none := by
  simp [zeros?, product?, h]

/-- **Entries are accepted exactly when their number is the product of the sizes**, which does not
overflow, and they are stored as they are. -/
theorem ofArray?_eq_some_iff {rows cols : Nat} {data : Array Int32} {s : Storage} :
    ofArray? limit rows cols data = some s ↔
      (rows * cols = data.size ∧ rows * cols < limit) ∧ s = ⟨rows, cols, data⟩ := by
  unfold ofArray?
  rw [Option.bind_eq_bind, Option.bind_eq_some_iff]
  constructor
  · rintro ⟨size, hsize, hs⟩
    obtain ⟨hlimit, rfl⟩ := product?_eq_some_iff.mp hsize
    split at hs
    · rename_i heq
      exact ⟨⟨heq, hlimit⟩, (Option.some.inj hs).symm⟩
    · cases hs
  · rintro ⟨⟨heq, hlimit⟩, rfl⟩
    exact ⟨_, product?_eq_some_iff.mpr ⟨hlimit, rfl⟩, if_pos heq⟩

/-- **No read of an entry is out of range.** -/
theorem get?_storage (m : SimilarityMatrix) (row col : Nat) :
    m.storage.get? row col = some (m.get? row col) := by
  unfold get? SimilarityMatrix.get?
  by_cases h : row < m.rows ∧ col < m.cols
  · have hinside : row * m.cols + col < m.entries.size :=
      m.size_eq ▸ SimilarityMatrix.index_lt ⟨row, h.1⟩ ⟨col, h.2⟩
    rw [dif_pos h]
    refine (if_pos h).trans ?_
    show (m.entries[row * m.cols + col]?).map some = _
    rw [Array.getElem?_eq_getElem hinside]
    rfl
  · rw [dif_neg h]
    exact if_neg h

theorem transpose?_storage (h : m.rows * m.cols < limit) :
    m.storage.transpose? limit = some m.transpose.storage := by
  have hlimit : m.storage.cols * m.storage.rows < limit := Nat.mul_comm m.rows m.cols ▸ h
  unfold transpose?
  rw [zeros?_of_lt hlimit, Option.bind_eq_bind, Option.bind_some]
  exact exchange?_zeros m

/-- **Comparing descriptors stops only if the number of pairs overflows.** -/
theorem compared?_eq (limit : Nat) (a b : Array Descriptor) :
    compared? limit a b = if a.size * b.size < limit then
      some (SimilarityMatrix.ofDescriptors a b).storage else none := by
  unfold compared?
  split
  · rename_i h
    rw [zeros?_of_lt h, Option.bind_eq_bind, Option.bind_some, fill?_comparedRow?]
  · rename_i h
    rw [zeros?_of_not_lt h]
    rfl

/-- **The same holds under a test**, and a fault is reported before anything is allocated. -/
theorem guided?_eq (limit : Nat) (rejects : Point Float32 → Point Float32 → Bool)
    (a b : Features) :
    guided? limit rejects a b = match SimilarityMatrix.ofFeatures rejects a b with
      | .error fault => some (.error fault)
      | .ok m => if m.rows * m.cols < limit then some (.ok m.storage) else none := by
  unfold guided? SimilarityMatrix.ofFeatures
  by_cases ha : a.Aligned
  · by_cases hb : b.Aligned
    · rw [if_neg (not_not.mpr ha), if_neg (not_not.mpr hb), dif_pos ha, dif_pos hb]
      show _ = if a.descriptors.size * b.descriptors.size < limit then
        some (Except.ok (SimilarityMatrix.masked rejects a b ha hb).storage) else none
      split
      · rename_i h
        rw [zeros?_of_lt h, Option.bind_eq_bind, Option.bind_some, fill?_maskedRow? _ ha hb]
        rfl
      · rename_i h
        rw [zeros?_of_not_lt h]
        rfl
    · rw [if_neg (not_not.mpr ha), if_pos hb, dif_pos ha, dif_neg hb]
  · rw [if_pos ha, dif_neg ha]

end Represented

/-! ## Sequences of operations -/

section Sequences

variable {limit : Nat} {s : Storage}

/-- **What is built is the storage of a matrix**: the invariant of every sequence of operations. -/
theorem Built.exists_matrix (h : Built limit s) :
    ∃ m : SimilarityMatrix, m.rows * m.cols < limit ∧ m.storage = s := by
  induction h with
  | given h =>
    obtain ⟨⟨hsize, hlimit⟩, rfl⟩ := ofArray?_eq_some_iff.mp h
    exact ⟨⟨_, _, _, hsize.symm⟩, hlimit, rfl⟩
  | transposed hs h ih =>
    obtain ⟨m, hlimit, rfl⟩ := ih
    rw [transpose?_storage hlimit] at h
    exact ⟨m.transpose, Nat.mul_comm m.rows m.cols ▸ hlimit, Option.some.inj h⟩
  | @compared a b s h =>
    rw [compared?_eq] at h
    split at h
    · rename_i hlimit
      exact ⟨.ofDescriptors a b, hlimit, Option.some.inj h⟩
    · cases h
  | @guided rejects a b s h =>
    rw [guided?_eq] at h
    split at h
    · cases h
    · rename_i m hm
      split at h
      · rename_i hlimit
        exact ⟨m, hlimit, Except.ok.inj (Option.some.inj h)⟩
      · cases h

/-- **The storages that can be built are those with the right number of entries.** -/
theorem built_iff : Built limit s ↔ s.data.size = s.rows * s.cols ∧ s.rows * s.cols < limit := by
  constructor
  · intro h
    obtain ⟨m, hlimit, rfl⟩ := h.exists_matrix
    exact ⟨m.size_eq, hlimit⟩
  · rintro ⟨hsize, hlimit⟩
    exact .given (ofArray?_eq_some_iff.mpr ⟨⟨hsize.symm, hlimit⟩, rfl⟩)

end Sequences

/-! ## What every storage that is built has -/

/-- The laws of a storage whose entries fill a rectangle. Every operation answers. -/
structure Rectangular (limit : Nat) (s : Storage) : Prop where
  size_eq : s.data.size = s.rows * s.cols
  /-- An entry is there exactly within the sizes. -/
  isSome_get : ∀ row col, ∃ entry, s.get? row col = some entry ∧
    (entry.isSome = true ↔ row < s.rows ∧ col < s.cols)
  /-- A row holds its entries. -/
  row_get : ∀ row, row < s.rows → ∃ part, s.row? row = some part ∧ part.size = s.cols ∧
    ∀ col, s.get? row col = some part[col]?
  /-- The rows, one after the other, are the block. -/
  flatten_rows : ∃ parts, (List.range s.rows).mapM s.row? = some parts ∧
    (parts.map Array.toList).flatten = s.data.toList
  /-- Exchanging rows and columns exchanges sizes and indices, and doing it twice gives back the
  storage. -/
  transpose : ∃ t, s.transpose? limit = some t ∧ t.rows = s.cols ∧ t.cols = s.rows ∧
    (∀ row col, t.get? col row = s.get? row col) ∧ t.transpose? limit = some s

end Storage

namespace SimilarityMatrix

variable (m : SimilarityMatrix)

theorem isSome_get?_iff (row col : Nat) :
    (m.get? row col).isSome = true ↔ row < m.rows ∧ col < m.cols := by
  unfold get?
  split
  · rename_i h
    exact iff_of_true rfl h
  · rename_i h
    exact iff_of_false (by simp) h

theorem getElem?_row (r : Fin m.rows) (col : Nat) : (m.row r)[col]? = m.get? r col := by
  unfold row get?
  rw [List.getElem?_ofFn]
  by_cases h : col < m.cols
  · rw [dif_pos h, dif_pos ⟨r.isLt, h⟩]
  · rw [dif_neg h, dif_neg fun hboth => h hboth.2]

/-- **Exchanging rows and columns exchanges the indices**, in range or not. -/
theorem get?_transpose (row col : Nat) : m.transpose.get? col row = m.get? row col := by
  unfold get?
  by_cases h : row < m.rows ∧ col < m.cols
  · have h' : col < m.transpose.rows ∧ row < m.transpose.cols := ⟨h.2, h.1⟩
    rw [dif_pos h, dif_pos h']
    exact congrArg some (m.get_transpose ⟨row, h.1⟩ ⟨col, h.2⟩)
  · have h' : ¬(col < m.transpose.rows ∧ row < m.transpose.cols) :=
      fun hboth => h ⟨hboth.2, hboth.1⟩
    rw [dif_neg h, dif_neg h']

theorem rectangular_storage {limit : Nat} (h : m.rows * m.cols < limit) :
    m.storage.Rectangular limit where
  size_eq := m.size_eq
  isSome_get := fun row col => ⟨_, Storage.get?_storage m row col, m.isSome_get?_iff row col⟩
  row_get := fun row hrow => by
    refine ⟨_, Storage.row?_storage m ⟨row, hrow⟩, by simp [SimilarityMatrix.row, storage],
      fun col => ?_⟩
    rw [Storage.get?_storage, List.getElem?_toArray, m.getElem?_row ⟨row, hrow⟩]
  flatten_rows := by
    refine ⟨_, mapM_range (Storage.row?_storage m), ?_⟩
    rw [List.map_ofFn]
    exact m.flatten_rows
  transpose := by
    have h' : m.transpose.rows * m.transpose.cols < limit := Nat.mul_comm m.rows m.cols ▸ h
    refine ⟨_, Storage.transpose?_storage h, rfl, rfl, fun row col => ?_, ?_⟩
    · rw [Storage.get?_storage, Storage.get?_storage, m.get?_transpose]
    · rw [Storage.transpose?_storage h', m.transpose_transpose]

end SimilarityMatrix

/-- **Every matrix is a rectangle in memory.** Whatever sequence of operations has built a storage,
its entries fill `rows * cols` places and all laws of a rectangle hold of it. Given entries are
accepted exactly when their number is that product. The storages that can be built are those of the
matrices, and each operation on them is the one on matrices. -/
theorem storage_stays_rectangular (limit : Nat) :
    (∀ s, Storage.Built limit s → s.Rectangular limit) ∧
    (∀ rows cols data, (Storage.ofArray? limit rows cols data).isSome = true ↔
      rows * cols = data.size ∧ rows * cols < limit) ∧
    (∀ s, Storage.Built limit s ↔ ∃ m : SimilarityMatrix, m.rows * m.cols < limit ∧ m.storage = s) ∧
    (∀ m : SimilarityMatrix, m.rows * m.cols < limit →
      (∀ row col, m.storage.get? row col = some (m.get? row col)) ∧
      (∀ row < m.rows, m.storage.row? row = m.slice? row) ∧
      m.storage.transpose? limit = some m.transpose.storage) ∧
    (∀ rows cols (data : Array Int32), data.size < limit →
      Storage.ofArray? limit rows cols data =
        (SimilarityMatrix.ofArray? rows cols data).map SimilarityMatrix.storage) ∧
    (∀ a b : Array Descriptor, a.size * b.size < limit →
      Storage.compared? limit a b = some (SimilarityMatrix.ofDescriptors a b).storage) ∧
    ∀ rejects (a b : Features), a.descriptors.size * b.descriptors.size < limit →
      Storage.guided? limit rejects a b =
        some ((SimilarityMatrix.ofFeatures rejects a b).map SimilarityMatrix.storage) := by
  refine ⟨fun s hs => ?_, fun rows cols data => ?_, fun s => ⟨Storage.Built.exists_matrix, ?_⟩,
    fun m h => ⟨Storage.get?_storage m, fun row _ => rfl, Storage.transpose?_storage h⟩,
    fun rows cols data h => ?_, fun a b h => ?_, fun rejects a b h => ?_⟩
  · obtain ⟨m, hlimit, rfl⟩ := hs.exists_matrix
    exact m.rectangular_storage hlimit
  · rw [Option.isSome_iff_exists]
    simp only [Storage.ofArray?_eq_some_iff, exists_and_left, exists_eq, and_true]
  · rintro ⟨m, hlimit, rfl⟩
    exact Storage.built_iff.mpr ⟨m.size_eq, hlimit⟩
  · unfold SimilarityMatrix.ofArray?
    split
    · rename_i hsize
      exact Storage.ofArray?_eq_some_iff.mpr ⟨⟨hsize.symm, hsize ▸ h⟩, rfl⟩
    · rename_i hsize
      rw [Option.map_none, Option.eq_none_iff_forall_ne_some]
      intro s hs
      exact hsize (Storage.ofArray?_eq_some_iff.mp hs).1.1.symm
  · rw [Storage.compared?_eq, if_pos h]
  · rw [Storage.guided?_eq]
    unfold SimilarityMatrix.ofFeatures
    split_ifs with ha hb
    · exact if_pos h
    · rfl
    · rfl

/-- The number of addresses of a 64 bit machine. -/
def addressCount : Nat := 18446744073709551616

/-- Two rows of three entries, and four rows without any. -/
theorem storage_stays_rectangular_shapes :
    (⟨2, 3, #[1, 2, 3, 4, 5, 6]⟩ : Storage).Rectangular addressCount ∧
    (∃ t, (⟨2, 3, #[1, 2, 3, 4, 5, 6]⟩ : Storage).transpose? addressCount = some t ∧
      t.data = #[1, 4, 2, 5, 3, 6] ∧ t.Rectangular addressCount) ∧
    (∃ t, (⟨4, 0, #[]⟩ : Storage).transpose? addressCount = some t ∧ t.rows = 0 ∧ t.cols = 4 ∧
      t.transpose? addressCount = some ⟨4, 0, #[]⟩) ∧
    (Storage.ofArray? addressCount 2 2 #[1, 2, 3]).isSome = false := by
  obtain ⟨hbuilt, hgiven, -⟩ := storage_stays_rectangular addressCount
  have hfull : Storage.Built addressCount ⟨2, 3, #[1, 2, 3, 4, 5, 6]⟩ :=
    Storage.built_iff.mpr ⟨rfl, by decide⟩
  have hempty : Storage.Built addressCount ⟨4, 0, #[]⟩ := Storage.built_iff.mpr ⟨rfl, by decide⟩
  refine ⟨hbuilt _ hfull, ⟨_, rfl, rfl, hbuilt _ (hfull.transposed rfl)⟩, ?_, ?_⟩
  · obtain ⟨t, ht, hrows, hcols, -, hback⟩ := (hbuilt _ hempty).transpose
    exact ⟨t, ht, hrows, hcols, hback⟩
  · rw [Bool.eq_false_iff, Ne, hgiven]
    decide

end FeatureMatching
