import Keystroke.Proofs.Device

/-!
# The variable that the list routines work on

Lists and dictionaries are matrices in named variables. A variable of the routines holds the name of
the one that they work on, and a list or dictionary without rows is a variable that is missing,
which the routines find out by an error that they ignore.

What is said here holds for matrices with any number of columns. Lists have one column, dictionaries
have two.
-/

namespace Keystroke

open Reserved
open Routine (listLength listPush onList)

namespace Device

variable {h : Hardware} {d : Device} {name other : String} {content : Option Table} {datum : Datum}
  {register : Register} {table : Table} {row column row' column' : Nat} {cell : Cell}
  {operand : Operand}

/-- The pointer is set. -/
def aim (d : Device) (register : Register) (row column : Nat) : Device :=
  { d with pointer := some ⟨register, row, column⟩ }

/-- A variable is cleared. -/
def erase (d : Device) (register : Register) : Device :=
  { d with registers := Function.update d.registers register none }

theorem registers_erase_of_ne {other : Register} (hne : other ≠ register) :
    (d.erase register).registers other = d.registers other := by
  simp only [erase, Function.update_of_ne hne]

theorem perform_of_operate {o : Op} {d' : Device} (hcontrol : o.isControl = false)
    (hoperate : d.operate h o = some d') : d.perform h (.op o) = some (d', false) := by
  rw [perform, hcontrol]
  show (d.operate h o).map _ = _
  rw [hoperate]
  rfl

/-! ### Elements -/

section

variable (hpointer : d.pointer = some ⟨register, row, column⟩)
  (htable : d.registers register = some (.table table))

include hpointer htable

theorem target?_of_pointer : d.target? = some (⟨register, row, column⟩, table) := by
  rw [target?, hpointer, Option.bind_some, table?, htable]
  rfl

theorem perform_storeIndex (hy : d.levels.y = .number row') (hx : d.levels.x = .number column')
    (hhas : table.has row' column' = true) :
    d.perform h (.op .storeIndex) = some (d.aim register row' column', false) := by
  refine perform_of_operate rfl ?_
  unfold operate
  rw [target?_of_pointer hpointer htable, hy, hx, Datum.count?_natCast, Datum.count?_natCast]
  exact if_pos hhas

theorem perform_storeElement (hx : d.levels.x = .cell cell) (hhas : table.has row column = true) :
    d.perform h (.op .storeElement) =
      some (d.put register (.table (table.set row column cell)), false) := by
  refine perform_of_operate rfl ?_
  unfold operate
  rw [target?_of_pointer hpointer htable, hx]
  exact if_pos hhas

theorem perform_recallElement (hcell : table.get? row column = some cell) :
    d.perform h (.op .recallElement) = some (d.push (.cell cell), false) := by
  refine perform_of_operate rfl ?_
  unfold operate
  rw [target?_of_pointer hpointer htable]
  show (table.get? row column).bind _ = _
  rw [hcell]
  rfl

theorem perform_nextColumn (hcolumn : column < table.columns)
    (hhas : table.has row (column + 1) = true) :
    d.perform h (.op .nextColumn) = some (d.aim register row (column + 1), false) := by
  refine perform_of_operate rfl ?_
  unfold operate
  rw [target?_of_pointer hpointer htable]
  show d.pointAt _ table (table.following row column).1 (table.following row column).2 = _
  rw [Table.following, if_pos hcolumn]
  exact if_pos hhas

theorem perform_deleteRow (hmany : 1 < table.rows) (hrow : 1 ≤ row ∧ row ≤ table.rows) :
    d.perform h (.op .deleteRow) =
      some
        ({ d.put register (.table (table.deleteRow row hrow)) with pointer := none }, false) := by
  refine perform_of_operate rfl ?_
  unfold operate
  rw [target?_of_pointer hpointer htable]
  exact dif_pos ⟨hmany, hrow⟩

end

/-- A matrix is no number of a row. -/
theorem perform_storeIndex_none (hy : d.levels.y = .table table) :
    d.perform h (.op .storeIndex) = none := by
  show (d.operate h .storeIndex).map _ = _
  unfold operate
  rw [hy]
  cases d.target? <;> rfl

/-! ### Variables -/

theorem register?_indirect (hholder : d.registers register = some (.text name)) :
    d.register? (.indirect register) = some (.named name) := by
  simp only [register?, hholder]

theorem read?_indirect (hholder : d.registers register = some (.text name)) :
    d.read? (.indirect register) = d.registers (.named name) := by
  show (d.register? (.indirect register)).bind d.registers = _
  rw [register?_indirect hholder]
  rfl

theorem perform_recall (hread : d.read? operand = some datum) :
    d.perform h (.memory .recallValue operand) = some (d.push datum, false) := by
  show ((d.read? operand).map d.push).map _ = _
  rw [hread]
  rfl

theorem perform_index (hregister : d.register? operand = some register)
    (htable : d.table? register = some table) :
    d.perform h (.memory .index operand) = some (d.aim register 1 1, false) := by
  show (d.access h .index operand).map _ = _
  unfold access
  rw [hregister]
  show ((d.table? register).bind _).map _ = _
  rw [htable]
  rfl

/-- A matrix takes other dimensions, also if there has been none. -/
theorem perform_dimension {rows columns : Nat} (hregister : d.register? operand = some register)
    (hy : d.levels.y = .number rows) (hx : d.levels.x = .number columns) (hrows : 0 < rows)
    (hcolumns : 0 < columns) :
    d.perform h (.memory .dimension operand) = some (d.put register
      (.table (((d.table? register).getD (.zeros 0 0)).resize rows columns)), false) := by
  show (d.access h .dimension operand).map _ = _
  unfold access
  rw [hregister, hy, hx, Datum.count?_natCast, Datum.count?_natCast]
  exact congrArg _ (if_pos ⟨hrows, hcolumns⟩)

/-! ### The variable of the routines -/

/-- A variable is the one that the routines work on. It holds a matrix or is missing. -/
structure Focuses (d : Device) (name : String) (content : Option Table) : Prop where
  selected : d.registers (.named listNameVariable) = some (.text name)
  holds : d.registers (.named name) = content.map .table

namespace Focuses

theorem register? (hfocus : d.Focuses name content) :
    d.register? (.indirect (.named listNameVariable)) = some (.named name) :=
  register?_indirect hfocus.selected

theorem table? (hfocus : d.Focuses name content) : d.table? (.named name) = content := by
  rw [Device.table?, hfocus.holds]
  cases content <;> rfl

theorem name_ne (hfocus : d.Focuses name content) : name ≠ listNameVariable := by
  rintro rfl
  have htext := hfocus.selected.symm.trans hfocus.holds
  cases content <;> cases htext

/-- Another variable is set. -/
theorem put (hfocus : d.Focuses name content) (hne : name ≠ other)
    (hother : other ≠ listNameVariable)
    (datum : Datum) : (d.put (.named other) datum).Focuses name content where
  selected := by
    rw [registers_put_of_ne _ _ fun heq => hother (by cases heq; rfl)]
    exact hfocus.selected
  holds := by
    rw [registers_put_of_ne _ _ fun heq => hne (by cases heq; rfl)]
    exact hfocus.holds

/-- The variable is changed. -/
theorem put_table (hfocus : d.Focuses name content) (table : Table) :
    (d.put (.named name) (.table table)).Focuses name (some table) where
  selected := by
    rw [registers_put_of_ne _ _ fun heq => hfocus.name_ne (by cases heq; rfl)]
    exact hfocus.selected
  holds := registers_put_self _ _ _

theorem erase (hfocus : d.Focuses name content) : (d.erase (.named name)).Focuses name none where
  selected := by
    rw [registers_erase_of_ne fun heq => hfocus.name_ne (by cases heq; rfl)]
    exact hfocus.selected
  holds := Function.update_self _ _ _

theorem perform_recall_none (hfocus : d.Focuses name none) :
    d.perform h (onList .recallValue) = none := by
  show ((d.read? (.indirect (.named listNameVariable))).map d.push).map _ = _
  rw [read?_indirect hfocus.selected, hfocus.holds]
  rfl

theorem perform_recall (hfocus : d.Focuses name (some table)) :
    d.perform h (onList .recallValue) = some (d.push (.table table), false) :=
  Device.perform_recall ((read?_indirect hfocus.selected).trans hfocus.holds)

theorem perform_index_none (hfocus : d.Focuses name none) : d.perform h (onList .index) = none := by
  show (d.access h .index (.indirect (.named listNameVariable))).map _ = _
  unfold access
  rw [hfocus.register?]
  show ((d.table? (.named name)).bind _).map _ = _
  rw [hfocus.table?]
  rfl

theorem perform_index (hfocus : d.Focuses name (some table)) :
    d.perform h (onList .index) = some (d.aim (.named name) 1 1, false) :=
  Device.perform_index hfocus.register? hfocus.table?

theorem perform_clear (hfocus : d.Focuses name content) :
    d.perform h (onList .clearVariable) = some (d.erase (.named name), false) := by
  show ((d.register? (.indirect (.named listNameVariable))).map _).map _ = _
  rw [hfocus.register?]
  rfl

end Focuses

end Device

namespace Hardware

variable {h : Hardware} {d d' : Device} {name : String} {content : Option Table}
  {register : Register} {table : Table} {pairs : Bool} {n : Nat}

theorem exists_flagged {flag : Nat} {b : Bool} (hflag : d.flags flag = b) :
    ∃ e : Device, d = e.flagged flag b :=
  ⟨d, by rw [← hflag, Device.flagged_self]⟩

/-! ### Instructions that may fail -/

section Tried

variable {code : List Instr} {line : Nat} {instr : Instr}

/-- The test behind a line that may fail skips a line if the flag is still set. -/
theorem goes_tried (htest : InstrAt code line (.flag .isClearThenClear (.number ignoreErrorFlag)))
    (b : Bool) : h.Goes code (d.flagged ignoreErrorFlag b, line)
      (d.flagged ignoreErrorFlag false, line + if b then 2 else 1) := by
  have hperform : (d.flagged ignoreErrorFlag b).perform h
      (.flag .isClearThenClear (.number ignoreErrorFlag)) =
        some ((d.flagged ignoreErrorFlag b).flagged ignoreErrorFlag false, b) := rfl
  rw [Device.flagged_flagged] at hperform
  exact .advance (advance_of_perform htest rfl hperform)

theorem goes_failed (hinstr : InstrAt code line instr) (htransfers : instr.transfers = false)
    (htest : InstrAt code (line + 1) (.flag .isClearThenClear (.number ignoreErrorFlag)))
    (hperform : (d.flagged ignoreErrorFlag true).perform h instr = none) :
    h.Goes code (d.flagged ignoreErrorFlag true, line)
      (d.flagged ignoreErrorFlag false, line + 2) := by
  have hignored := advance_of_ignored hinstr htransfers hperform rfl
  rw [Device.flagged_flagged] at hignored
  exact .trans (.advance hignored) (goes_tried htest false)

theorem goes_succeeded (hinstr : InstrAt code line instr) (htransfers : instr.transfers = false)
    (htest : InstrAt code (line + 1) (.flag .isClearThenClear (.number ignoreErrorFlag)))
    (hperform : (d.flagged ignoreErrorFlag true).perform h instr =
      some (d'.flagged ignoreErrorFlag true, false)) :
    h.Goes code (d.flagged ignoreErrorFlag true, line)
      (d'.flagged ignoreErrorFlag false, line + 3) :=
  .trans (.perform hinstr htransfers hperform) (goes_tried htest true)

/-- The matrix is entered, and a line is skipped, unless it is missing. -/
theorem goes_recallList (code : List Instr) (line : Nat) (hfocus : d.Focuses name content)
    (levels : Levels Datum) (hrecall : InstrAt code line (onList .recallValue))
    (htest : InstrAt code (line + 1) (.flag .isClearThenClear (.number ignoreErrorFlag))) :
    h.Goes code ((d.flagged ignoreErrorFlag true).holding levels, line)
      (match content with
      | none => ((d.flagged ignoreErrorFlag false).holding levels, line + 2)
      | some table =>
        (((d.flagged ignoreErrorFlag false).holding levels).push (.table table), line + 3)) := by
  have hfocus' : ((d.holding levels).flagged ignoreErrorFlag true).Focuses name content :=
    ⟨hfocus.selected, hfocus.holds⟩
  cases content with
  | none => exact goes_failed hrecall rfl htest hfocus'.perform_recall_none
  | some table =>
    have hrecalled :
        ((d.holding levels).flagged ignoreErrorFlag true).perform h (onList .recallValue) =
        some (((d.holding levels).push (.table table)).flagged ignoreErrorFlag true, false) :=
      hfocus'.perform_recall
    exact goes_succeeded hrecall rfl htest hrecalled

end Tried

/-! ### The number of rows -/

/-- The number of rows is entered, also if there are none. -/
theorem performs_rowCount (hfocus : d.Focuses name content) (levels : Levels Datum) :
    ∃ t, h.Performs listLength (d.holding levels) ((d.flagged ignoreErrorFlag false).holding
      ⟨.number (content.elim 0 Table.rows : ℕ), levels.x, levels.y, t⟩) := by
  have hset : h.Goes listLength.code (d.holding levels, 0)
      ((d.flagged ignoreErrorFlag true).holding levels, 1) := .advance rfl
  have hrecall := hset.trans (goes_recallList _ 1 hfocus levels rfl rfl)
  cases content with
  | none => exact ⟨_, performs_of_goes (hrecall.trans (.advanceFor (n := 3) rfl)) rfl⟩
  | some table => exact ⟨_, performs_of_goes (hrecall.trans (.advanceFor (n := 2) rfl)) rfl⟩

/-! ### Appending a row -/

/-- The number of columns: a key and a value, or a value only. -/
def columnCount : Bool → Nat
  | true => 2
  | false => 1

theorem columnCount_pos (pairs : Bool) : 0 < columnCount pairs := by
  cases pairs <;> decide

/-- The number of the new row is put aside, and entered with the number of columns. -/
theorem goes_listPush_row (hfocus : d.Focuses name content) (hpairs : d.flags pairFlag = pairs)
    (hn : content.elim 0 Table.rows = n) (levels : Levels Datum) :
    h.Goes listPush.code ((d.flagged ignoreErrorFlag true).holding levels, 6)
      (((d.flagged ignoreErrorFlag false).put (.named listRowVariable)
        (.number (n + 1 : ℕ))).holding
        ⟨.number (columnCount pairs), .number (n + 1 : ℕ), levels.x, levels.y⟩, 22) := by
  have hrecall := goes_recallList (h := h) listPush.code 6 hfocus levels rfl rfl
  obtain ⟨t, hrows⟩ : ∃ t, h.Goes listPush.code ((d.flagged ignoreErrorFlag true).holding levels, 6)
      ((d.flagged ignoreErrorFlag false).holding ⟨.number n, levels.x, levels.y, t⟩, 14) := by
    subst hn
    cases content with
    | none => exact ⟨_, hrecall.trans (.advanceFor (n := 3) rfl)⟩
    | some table => exact ⟨_, hrecall.trans (.advanceFor (n := 3) rfl)⟩
  refine hrows.trans ?_
  obtain ⟨e, rfl⟩ := exists_flagged hpairs
  rw [Nat.cast_succ]
  cases pairs <;> exact .advanceFor (n := 7) rfl

/-- The lines that write a key are left out when there is none. -/
theorem goes_listPush_key (pairs : Bool) (hpairs : d.flags pairFlag = pairs) :
    h.Goes listPush.code (d, 27) (d, if pairs then 29 else 33) := by
  obtain ⟨e, rfl⟩ := exists_flagged hpairs
  cases pairs with
  | true => exact .advance rfl
  | false => exact .advanceFor (n := 3) rfl

/-- A row is appended to the matrix, and the pointer is set to its first element. -/
theorem goes_listPush_grow (hfocus : d.Focuses name content) (hne : name ≠ listRowVariable)
    (hpairs : d.flags pairFlag = pairs)
    (hrow : d.registers (.named listRowVariable) = some (.number (n + 1 : ℕ)))
    (htable : (content.getD (.zeros 0 0)).resize (n + 1) (columnCount pairs) = table)
    (hhas : table.has (n + 1) 1 = true) (z t : Datum) :
    h.Goes listPush.code
      (d.holding ⟨.number (columnCount pairs), .number (n + 1 : ℕ), z, t⟩, 22)
      (((d.put (.named name) (.table table)).aim (.named name) (n + 1) 1).holding
        ⟨.number (1 : ℕ), .number (n + 1 : ℕ), .number (columnCount pairs), .number (n + 1 : ℕ)⟩,
        if pairs then 29 else 33) := by
  have hfocus' : (d.holding ⟨.number (columnCount pairs), .number (n + 1 : ℕ), z, t⟩).Focuses name
      content := ⟨hfocus.selected, hfocus.holds⟩
  have hgrown := Device.perform_dimension (h := h) hfocus'.register? rfl rfl (Nat.succ_pos n)
    (columnCount_pos pairs)
  rw [hfocus'.table?, htable] at hgrown
  have hgrow := Goes.trans (.perform rfl rfl hgrown : h.Goes listPush.code (_, 22) (_, 23))
    (.perform rfl rfl (hfocus'.put_table table).perform_index)
  have hrow' : (d.put (.named name) (.table table)).registers (.named listRowVariable) =
      some (.number (n + 1 : ℕ)) := by
    rw [Device.registers_put_of_ne _ _ fun heq => hne (by cases heq; rfl), hrow]
  have haim := Device.perform_storeIndex (h := h) (d := ((d.put (.named name) (.table table)).aim
    (.named name) 1 1).holding ⟨.number (1 : ℕ), .number (n + 1 : ℕ), .number (columnCount pairs),
      .number (n + 1 : ℕ)⟩) rfl (Device.registers_put_self _ _ _) rfl rfl hhas
  refine hgrow.trans (.trans (.recalls rfl hrow') (.trans (.advance rfl : h.Goes _ _ (_, 26)) ?_))
  exact .trans (.perform rfl rfl haim) (goes_listPush_key pairs hpairs)

/-- An element is set to what a variable holds. -/
theorem goes_listPush_fill {other : String} {cell : Cell} {row column : Nat} (line : Nat)
    (hrecall : InstrAt listPush.code line (.recallValue (.named other)))
    (hstore : InstrAt listPush.code (line + 1) (.op .storeElement))
    (hne : register ≠ .named other) (hcell : d.registers (.named other) = some (.cell cell))
    (hhas : table.has row column = true) (x y z t : Datum) :
    h.Goes listPush.code
      (((d.put register (.table table)).aim register row column).holding ⟨x, y, z, t⟩, line)
      (((d.put register (.table (table.set row column cell))).aim register row column).holding
        ⟨.cell cell, x, y, z⟩, line + 2) := by
  have hheld : (d.put register (.table table)).registers (.named other) = some (.cell cell) := by
    rw [Device.registers_put_of_ne _ _ hne.symm, hcell]
  have hstored : (((d.put register (.table table)).aim register row column).holding
      ⟨.cell cell, x, y, z⟩).perform h (.op .storeElement) =
        some
        ((((d.put register (.table table)).put register (.table (table.set row column cell))).aim
          register row column).holding ⟨.cell cell, x, y, z⟩, false) :=
    Device.perform_storeElement rfl (Device.registers_put_self _ _ _) rfl hhas
  rw [Device.put_put] at hstored
  exact .trans (.recalls hrecall hheld) (.perform hstore rfl hstored)

end Hardware

end Keystroke
