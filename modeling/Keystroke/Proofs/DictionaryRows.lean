import Mathlib.Data.Finset.Card
import Keystroke.Proofs.Device

/-!
# The rows of a dictionary

A dictionary is a matrix with a key and its value in each row. A literal appends a row for each
pair, also for a key that it has already, and a store changes the first row with its key or appends
one. A load finds the first row with its key.
-/

namespace Keystroke

/-! ### Stores -/

/-- The rows after a store: the first row with the key is changed, or one is appended. -/
def storeRow (key value : ℚ) : List (ℚ × ℚ) → List (ℚ × ℚ)
  | [] => [(key, value)]
  | row :: rest => if row.1 = key then (key, value) :: rest else row :: storeRow key value rest

/-- The rows after some stores. -/
def storeRows (stores rows : List (ℚ × ℚ)) : List (ℚ × ℚ) :=
  stores.foldl (fun rows store => storeRow store.1 store.2 rows) rows

def keys (rows : List (ℚ × ℚ)) : List ℚ :=
  rows.map Prod.fst

section Rows

variable {key value old : ℚ} {rows before after pairs stores : List (ℚ × ℚ)}

theorem storeRow_of_notMem (hkey : key ∉ keys rows) :
    storeRow key value rows = rows ++ [(key, value)] := by
  induction rows with
  | nil => rfl
  | cons row rest ih =>
    obtain ⟨hne, hrest⟩ := not_or.mp (List.mem_cons.not.mp hkey)
    rw [storeRow, if_neg (Ne.symm hne), ih hrest]
    rfl

theorem storeRow_of_split (hkey : key ∉ keys before) :
    storeRow key value (before ++ (key, old) :: after) = before ++ (key, value) :: after := by
  induction before with
  | nil => exact if_pos rfl
  | cons row rest ih =>
    obtain ⟨hne, hrest⟩ := not_or.mp (List.mem_cons.not.mp hkey)
    rw [List.cons_append, storeRow, if_neg (Ne.symm hne), ih hrest]
    rfl

theorem exists_split_of_lookup (hlookup : rows.lookup key = some value) :
    ∃ before after, rows = before ++ (key, value) :: after ∧ key ∉ keys before := by
  obtain ⟨before, after, hrows, hbefore⟩ := List.lookup_eq_some_iff.mp hlookup
  refine ⟨before, after, hrows, fun hkey => ?_⟩
  obtain ⟨row, hrow, rfl⟩ := List.mem_map.mp hkey
  simpa using hbefore row hrow

theorem lookup_eq_none_iff : rows.lookup key = none ↔ key ∉ keys rows := by
  rw [List.lookup_eq_none_iff, keys, List.mem_map, not_exists]
  refine forall_congr' fun row => ?_
  rw [not_and, bne_iff_ne]
  exact forall_congr' fun _ => ne_comm

theorem lookup_storeRow_self (key value : ℚ) (rows : List (ℚ × ℚ)) :
    (storeRow key value rows).lookup key = some value := by
  induction rows with
  | nil => exact List.lookup_cons_self
  | cons row rest ih =>
    rw [storeRow]
    by_cases hrow : row.1 = key
    · rw [if_pos hrow, List.lookup_cons_self]
    · rw [if_neg hrow, List.lookup_cons, beq_false_of_ne (Ne.symm hrow)]
      exact ih

theorem lookup_storeRow_of_ne {other : ℚ} (hne : other ≠ key) :
    (storeRow key value rows).lookup other = rows.lookup other := by
  have hskip : ∀ (old : ℚ) (rest : List (ℚ × ℚ)),
      ((key, old) :: rest).lookup other = rest.lookup other := fun old rest => by
    rw [List.lookup_cons, beq_false_of_ne hne]
  induction rows with
  | nil => exact hskip value []
  | cons row rest ih =>
    rw [storeRow]
    by_cases hrow : row.1 = key
    · rw [if_pos hrow, hskip, ← hskip row.2 rest, ← hrow]
    · rw [if_neg hrow, List.lookup_cons, List.lookup_cons, ih]

/-- The value that is found is that of the last store, or else of the first pair. -/
theorem lookup_storeRows (key : ℚ) (stores rows : List (ℚ × ℚ)) :
    (storeRows stores rows).lookup key = (stores.reverse.lookup key).or (rows.lookup key) := by
  induction stores generalizing rows with
  | nil => rfl
  | cons store rest ih =>
    rw [storeRows, List.foldl_cons, ← storeRows, ih, List.reverse_cons, List.lookup_append,
      Option.or_assoc]
    congr 1
    by_cases hkey : key = store.1
    · rw [hkey, lookup_storeRow_self, List.lookup_cons_self]
      rfl
    · rw [lookup_storeRow_of_ne hkey, List.lookup_cons, beq_false_of_ne hkey]
      rfl

theorem keys_storeRow (key value : ℚ) (rows : List (ℚ × ℚ)) :
    keys (storeRow key value rows) = if key ∈ keys rows then keys rows else keys rows ++ [key] := by
  by_cases hkey : key ∈ keys rows
  · obtain ⟨old, hold⟩ := Option.ne_none_iff_exists'.mp fun hnone =>
      lookup_eq_none_iff.mp hnone hkey
    obtain ⟨before, after, rfl, hbefore⟩ := exists_split_of_lookup hold
    rw [if_pos hkey, storeRow_of_split hbefore, keys, keys, List.map_append, List.map_append]
    rfl
  · rw [if_neg hkey, storeRow_of_notMem hkey, keys, List.map_append]
    rfl

theorem length_le_storeRow (key value : ℚ) (rows : List (ℚ × ℚ)) :
    rows.length ≤ (storeRow key value rows).length := by
  have hkeys := congrArg List.length (keys_storeRow key value rows)
  rw [keys, List.length_map] at hkeys
  rw [hkeys]
  split
  · rw [keys, List.length_map]
  · rw [List.length_append, keys, List.length_map]
    exact Nat.le_add_right _ _

theorem length_le_storeRows (stores rows : List (ℚ × ℚ)) :
    rows.length ≤ (storeRows stores rows).length := by
  induction stores generalizing rows with
  | nil => exact Nat.le_refl _
  | cons store rest ih => exact (length_le_storeRow store.1 store.2 rows).trans (ih _)

theorem nodup_keys_storeRow (key value : ℚ) (rows : List (ℚ × ℚ)) :
    (keys (storeRow key value rows)).Nodup ↔ (keys rows).Nodup := by
  rw [keys_storeRow]
  split
  · exact Iff.rfl
  · rename_i hkey
    rw [List.nodup_append_comm, List.singleton_append, List.nodup_cons, and_iff_right hkey]

theorem nodup_keys_storeRows (stores rows : List (ℚ × ℚ)) :
    (keys (storeRows stores rows)).Nodup ↔ (keys rows).Nodup := by
  induction stores generalizing rows with
  | nil => exact Iff.rfl
  | cons store rest ih =>
    rw [storeRows, List.foldl_cons, ← storeRows, ih]
    exact nodup_keys_storeRow store.1 store.2 rows

theorem lookup_reverse_eq_none_iff : rows.reverse.lookup key = none ↔ key ∉ keys rows := by
  rw [lookup_eq_none_iff, keys, keys, List.map_reverse, List.mem_reverse]

theorem mem_keys_storeRows : key ∈ keys (storeRows stores rows) ↔ key ∈ keys (rows ++ stores) := by
  rw [← not_iff_not, ← lookup_eq_none_iff, lookup_storeRows, Option.or_eq_none_iff,
    lookup_reverse_eq_none_iff, lookup_eq_none_iff, keys, keys, keys, List.map_append,
    List.mem_append, not_or, and_comm]

/-- The number of keys in some rows, each counted once. -/
def distinctKeys (rows : List (ℚ × ℚ)) : Nat :=
  (keys rows).dedup.length

theorem length_eq_distinctKeys_iff : rows.length = distinctKeys rows ↔ (keys rows).Nodup := by
  rw [distinctKeys, ← List.dedup_eq_self]
  constructor
  · intro hlength
    refine (List.dedup_sublist (keys rows)).eq_of_length ?_
    rw [← hlength, keys, List.length_map]
  · intro hsame
    rw [hsame, keys, List.length_map]

/-- After a literal with some pairs and then some stores, there is a row for each key exactly if the
keys of the literal are distinct. -/
theorem length_storeRows_iff (pairs stores : List (ℚ × ℚ)) :
    (storeRows stores pairs).length = distinctKeys (pairs ++ stores) ↔ (keys pairs).Nodup := by
  have hkeys : distinctKeys (storeRows stores pairs) = distinctKeys (pairs ++ stores) := by
    rw [distinctKeys, distinctKeys, ← List.card_toFinset, ← List.card_toFinset]
    congr 1
    ext key
    rw [List.mem_toFinset, List.mem_toFinset, mem_keys_storeRows]
  rw [← hkeys, length_eq_distinctKeys_iff, nodup_keys_storeRows]

/-- After a literal with some pairs and then some stores, every load finds the last value of its key
exactly if the first value of each key that is not stored to is also its last one. -/
theorem lookup_storeRows_iff (pairs stores : List (ℚ × ℚ)) :
    (∀ key, (storeRows stores pairs).lookup key = (pairs ++ stores).reverse.lookup key) ↔
      ∀ key ∉ keys stores, pairs.lookup key = pairs.reverse.lookup key := by
  refine forall_congr' fun key => ?_
  rw [lookup_storeRows, List.reverse_append, List.lookup_append]
  cases hstored : stores.reverse.lookup key with
  | none =>
    have hkey := lookup_reverse_eq_none_iff.mp hstored
    exact (imp_iff_right hkey).symm
  | some value =>
    have hkey : key ∈ keys stores := by
      by_contra hkey
      rw [lookup_reverse_eq_none_iff.mpr hkey] at hstored
      cases hstored
    exact iff_of_true rfl fun hnot => absurd hkey hnot

end Rows

/-! ### Matrices -/

namespace Table

/-- The elements of a row. -/
def rowCells (row : ℚ × ℚ) : List Cell :=
  [.number row.1, .number row.2]

theorem length_flatMap_rowCells (rows : List (ℚ × ℚ)) :
    (rows.flatMap rowCells).length = rows.length * 2 := by
  induction rows with
  | nil => rfl
  | cons row rest ih =>
    rw [List.flatMap_cons, List.length_append, ih, List.length_cons, Nat.succ_mul, Nat.add_comm]
    rfl

/-- The matrix with given rows. -/
def ofRows (rows : List (ℚ × ℚ)) : Table where
  rows := rows.length
  columns := 2
  cells := rows.flatMap rowCells
  size := length_flatMap_rowCells rows

variable {before after : List (ℚ × ℚ)} {row : ℚ × ℚ} {column : Nat}

theorem cells_ofRows (before after : List (ℚ × ℚ)) (row : ℚ × ℚ) :
    (ofRows (before ++ row :: after)).cells =
      before.flatMap rowCells ++ (rowCells row ++ after.flatMap rowCells) := by
  show (before ++ row :: after).flatMap rowCells = _
  rw [List.flatMap_append, List.flatMap_cons]

/-- Every row has two elements. -/
theorem has_ofRows (hcolumn : column < 2) :
    (ofRows (before ++ row :: after)).has (before.length + 1) (column + 1) = true := by
  refine decide_eq_true ⟨Nat.le_add_left 1 _, ?_, Nat.le_add_left 1 _, hcolumn⟩
  show before.length + 1 ≤ (before ++ row :: after).length
  rw [List.length_append, List.length_cons]
  omega

theorem place_ofRows : (ofRows (before ++ row :: after)).place (before.length + 1) (column + 1) =
    (before.flatMap rowCells).length + column := by
  rw [length_flatMap_rowCells]
  rfl

theorem get?_ofRows (hcolumn : column < 2) :
    (ofRows (before ++ row :: after)).get? (before.length + 1) (column + 1) =
      (rowCells row)[column]? := by
  rw [get?, if_pos (has_ofRows hcolumn), place_ofRows, cells_ofRows,
    List.getElem?_append_right (Nat.le_add_right _ _), Nat.add_sub_cancel_left,
    List.getElem?_append_left hcolumn]

/-- An element of a row is changed. -/
theorem set_ofRows {row' : ℚ × ℚ} {cell : Cell} (hcolumn : column < 2)
    (hrow : (rowCells row).set column cell = rowCells row') :
    (ofRows (before ++ row :: after)).set (before.length + 1) (column + 1) cell =
      ofRows (before ++ row' :: after) := by
  ext1
  · show (before ++ row :: after).length = (before ++ row' :: after).length
    rw [List.length_append, List.length_append, List.length_cons, List.length_cons]
  · rfl
  · show (ofRows (before ++ row :: after)).cells.set _ cell = _
    rw [place_ofRows, cells_ofRows, List.set_append_right _ _ (Nat.le_add_right _ _),
      Nat.add_sub_cancel_left, List.set_append_left _ _ hcolumn, hrow, cells_ofRows]

/-- A new row is one of zeros. -/
theorem resize_of_cells {table : Table} {rows : List (ℚ × ℚ)}
    (hcells : table.cells = rows.flatMap rowCells) :
    table.resize (rows.length + 1) 2 = ofRows (rows ++ [(0, 0)]) := by
  ext1
  · show rows.length + 1 = (rows ++ [(0, 0)]).length
    rw [List.length_append]
    rfl
  · rfl
  · show (table.cells ++ List.replicate ((rows.length + 1) * 2) (Cell.number 0)).take
      ((rows.length + 1) * 2) = (rows ++ [(0, 0)]).flatMap rowCells
    rw [hcells, List.flatMap_append, Nat.succ_mul, ← length_flatMap_rowCells,
      List.take_length_add_append]
    rfl

end Table

end Keystroke
