import Reachability.Arithmetic

/-!
# Sparse rows

A `SparseRows` is a matrix that stores, row after row, the entries of each row with their
columns, and the offsets at which the rows start.  `SparseRows.row` is the view of a row as a
list of entries; `SparseRows.ofRows?` stores a list of rows, and fails if an entry lies outside
of the columns.
-/

namespace Reachability

/-- A matrix stored by rows: row `r` holds the entries from `offsets[r]` up to
`offsets[r + 1]`, each with its column. -/
structure SparseRows (V : Type) where
  columns : Nat
  offsets : Array Nat
  entries : Array (Nat × V)

namespace SparseRows

variable {V : Type}

/-- The number of rows. -/
def numRows (m : SparseRows V) : Nat := m.offsets.size - 1

/-- The number of stored entries. -/
def numEntries (m : SparseRows V) : Nat := m.entries.size

/-- The entries of a row; a row that does not exist has none. -/
def row (m : SparseRows V) (r : Nat) : List (Nat × V) :=
  (m.entries.extract (m.offsets.getD r 0) (m.offsets.getD (r + 1) 0)).toList

/-- All rows. -/
def rows (m : SparseRows V) : List (List (Nat × V)) := (List.range m.numRows).map m.row

/-- The stored entry of a row in a column, if there is one. -/
def get? (m : SparseRows V) (r column : Nat) : Option V := (m.row r).lookup column

/-- The offsets of rows that are stored from `start` on, and the offset after the last one. -/
def offsetsFrom {α : Type} (start : Nat) : List (List α) → List Nat
  | [] => [start]
  | row :: rows => start :: offsetsFrom (start + row.length) rows

/-- Stores rows one after the other. -/
def ofRows (columns : Nat) (rows : List (List (Nat × V))) : SparseRows V :=
  { columns := columns
    offsets := (offsetsFrom 0 rows).toArray
    entries := rows.flatten.toArray }

/-- Stores rows one after the other; every entry must lie in one of the columns. -/
def ofRows? (columns : Nat) (rows : List (List (Nat × V))) : Option (SparseRows V) :=
  if rows.all fun row => row.all fun entry => entry.1 < columns then some (ofRows columns rows)
  else none

/-- Whether each number of a list is at most the next one. -/
def isAscending : List Nat → Bool
  | [] => true
  | [_] => true
  | a :: b :: rest => decide (a ≤ b) && isAscending (b :: rest)

/-- Whether each column of a row is below the next one. -/
def isStrictlyAscending : List Nat → Bool
  | [] => true
  | [_] => true
  | a :: b :: rest => decide (a < b) && isStrictlyAscending (b :: rest)

/-- The largest offset that the start of a row may have: half the largest index, so that it stays
an index as a signed number, too. -/
def offsetLimit : Nat := indexLimit / 2

/-- The matrix with the given offsets, columns of entries and entries; they must fit each other,
and the columns of each row must ascend.  The offsets count from the first one, and none of them
may be above the limit. -/
def ofParts? (numRows columns : Nat) (offsets indices : List Nat) (values : List V) :
    Option (SparseRows V) :=
  let first := offsets.head?.getD 0
  let m : SparseRows V :=
    ⟨columns, (offsets.map (· - first)).toArray, (indices.zip values).toArray⟩
  if offsets.length = numRows + 1 ∧ indices.length = values.length
      ∧ offsets.getLast? = some (first + indices.length) ∧ isAscending offsets
      ∧ (offsets.all fun offset => decide (offset ≤ offsetLimit))
      ∧ m.rows.all fun row =>
        isStrictlyAscending (row.map Prod.fst) && row.all fun entry => decide (entry.1 < columns)
  then some m
  else none

@[simp]
theorem length_offsetsFrom {α : Type} (start : Nat) (rows : List (List α)) :
  (offsetsFrom start rows).length = rows.length + 1
  := by
  induction rows generalizing start with
  | nil => rfl
  | cons row rows ih => simp [offsetsFrom, ih]

@[simp]
theorem numRows_ofRows (columns : Nat) (rows : List (List (Nat × V))) :
  (ofRows columns rows).numRows = rows.length
  := by
  simp [numRows, ofRows]

/-- The offset of a row is the start plus the number of entries before it. -/
theorem getElem?_offsetsFrom {α : Type} (start : Nat) (rows : List (List α)) (r : Nat)
    (h : r ≤ rows.length) :
  (offsetsFrom start rows)[r]? = some (start + (rows.take r).flatten.length)
  := by
  induction rows generalizing start r with
  | nil =>
    obtain rfl : r = 0 := by simpa using h
    simp [offsetsFrom]
  | cons row rows ih =>
    cases r with
    | zero => simp [offsetsFrom]
    | succ r =>
      rw [offsetsFrom, List.getElem?_cons_succ, ih (start + row.length) r (by simpa using h)]
      rw [List.take_succ_cons, List.flatten_cons, List.length_append, Nat.add_assoc]

/-- The entries of a row follow those of the rows before it. -/
theorem take_drop_flatten {α : Type} (rows : List (List α)) (r : Nat) (h : r < rows.length) :
  (rows.flatten.drop (rows.take r).flatten.length).take rows[r].length = rows[r]
  := by
  induction rows generalizing r with
  | nil => simp at h
  | cons row rows ih =>
    cases r with
    | zero => simp
    | succ r =>
      rw [List.take_succ_cons, List.flatten_cons, List.flatten_cons, List.length_append,
        List.getElem_cons_succ, List.drop_append, List.drop_eq_nil_of_le (by omega),
        List.nil_append, Nat.add_sub_cancel_left]
      apply ih r

/-- The rows up to one have the entries of those before it and its own. -/
theorem length_flatten_take_add_one {α : Type} (rows : List (List α)) (r : Nat)
    (h : r < rows.length) :
  (rows.take (r + 1)).flatten.length = (rows.take r).flatten.length + rows[r].length
  := by
  rw [List.take_add_one, List.flatten_append, List.length_append]
  simp [h]

/-- What is stored for a row is that row. -/
@[simp]
theorem row_ofRows (columns : Nat) (rows : List (List (Nat × V))) (r : Nat)
    (h : r < rows.length) :
  (ofRows columns rows).row r = rows[r]
  := by
  have start := getElem?_offsetsFrom 0 rows r (by omega)
  have stop := getElem?_offsetsFrom 0 rows (r + 1) (by omega)
  have next := length_flatten_take_add_one rows r h
  simp only [row, ofRows, Array.getD_eq_getD_getElem?, List.getElem?_toArray, start, stop,
    Option.getD_some, Nat.zero_add, List.extract_toArray, List.extract_eq_take_drop, next,
    Nat.add_sub_cancel_left]
  apply take_drop_flatten rows r h

/-- As many entries are stored as the rows hold together. -/
theorem numEntries_ofRows (columns : Nat) (rows : List (List (Nat × V))) :
  (ofRows columns rows).numEntries = rows.flatten.length
  := by
  simp [numEntries, ofRows]

end SparseRows

end Reachability
