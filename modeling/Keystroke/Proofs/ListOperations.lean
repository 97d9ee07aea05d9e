import Keystroke.Proofs.ListVariable

/-!
# Lists in matrices with one column

The four routines for lists work on a variable that holds the elements of a list in the rows of a
matrix, and that is missing while there are none. They keep it so over any number of operations,
whatever a program does in between with the stack, the flags, the pointer and all other variables.

The routines put a value and the number of a row aside in two variables of their own. A list in one
of these two cannot be appended to.
-/

namespace Keystroke

open Reserved
open Routine (listClear listLength listPop listPush onList)
open Device Table

/-! ### Matrices with one column -/

namespace Table

/-- The matrix with given elements in one column. -/
def ofColumn (cells : List Cell) : Table where
  rows := cells.length
  columns := 1
  cells
  size := (Nat.mul_one _).symm

/-- The same, if there are any elements. -/
def ofColumn? : List Cell → Option Table
  | [] => none
  | cell :: rest => some (ofColumn (cell :: rest))

variable {cells : List Cell} {cell old : Cell}

theorem ofColumn?_append_singleton :
    ofColumn? (cells ++ [cell]) = some (ofColumn (cells ++ [cell])) := by
  cases cells <;> rfl

theorem elim_ofColumn? (cells : List Cell) : (ofColumn? cells).elim 0 rows = cells.length := by
  cases cells <;> rfl

theorem rows_ofColumn_append : (ofColumn (cells ++ [cell])).rows = cells.length + 1 :=
  List.length_append

theorem has_ofColumn_append : (ofColumn (cells ++ [cell])).has (cells.length + 1) 1 = true :=
  decide_eq_true ⟨Nat.le_add_left _ _, Nat.le_of_eq rows_ofColumn_append.symm, Nat.le_refl _,
    Nat.le_refl _⟩

theorem place_ofColumn (n : Nat) : (ofColumn cells).place (n + 1) 1 = n :=
  Nat.mul_one n

theorem get?_ofColumn_append :
    (ofColumn (cells ++ [cell])).get? (cells.length + 1) 1 = some cell := by
  rw [get?, if_pos has_ofColumn_append, place_ofColumn]
  exact List.getElem?_concat_length

/-- A new element is zero. -/
theorem resize_ofColumn? (cells : List Cell) :
    ((ofColumn? cells).getD (.zeros 0 0)).resize (cells.length + 1) 1 =
      ofColumn (cells ++ [.number 0]) := by
  have hcells : ((ofColumn? cells).getD (.zeros 0 0)).cells = cells := by cases cells <;> rfl
  ext1
  · exact rows_ofColumn_append.symm
  · rfl
  · show (_ ++ List.replicate ((cells.length + 1) * 1) (Cell.number 0)).take
      ((cells.length + 1) * 1) = _
    rw [hcells, Nat.mul_one, List.take_length_add_append, List.take_replicate,
      Nat.min_eq_left (Nat.le_add_left 1 _)]
    rfl

theorem set_ofColumn_append : (ofColumn (cells ++ [old])).set (cells.length + 1) 1 cell =
    ofColumn (cells ++ [cell]) := by
  ext1
  · exact rows_ofColumn_append.trans rows_ofColumn_append.symm
  · rfl
  · show (cells ++ [old]).set ((ofColumn (cells ++ [old])).place (cells.length + 1) 1) cell = _
    rw [place_ofColumn, List.set_append_right _ _ (Nat.le_refl _), Nat.sub_self]
    rfl

theorem deleteRow_ofColumn_append
    (hrow : 1 ≤ cells.length + 1 ∧ cells.length + 1 ≤ (ofColumn (cells ++ [cell])).rows) :
    (ofColumn (cells ++ [cell])).deleteRow (cells.length + 1) hrow = ofColumn cells := by
  ext1
  · show (cells ++ [cell]).length - 1 = cells.length
    rw [List.length_append]
    rfl
  · rfl
  · show (cells ++ [cell]).take (cells.length * 1) ++
      (cells ++ [cell]).drop ((cells.length + 1) * 1) = cells
    rw [Nat.mul_one, Nat.mul_one, List.take_left, List.drop_of_length_le, List.append_nil]
    exact Nat.le_of_eq List.length_append

end Table

/-! ### Operations -/

/-- The operations on a list. -/
inductive ListOp where
  | push (cell : Cell)
  | pop
  | clear
  | length

namespace ListOp

/-- The routine for an operation. -/
def routine : ListOp → Routine
  | push _ => listPush
  | pop => listPop
  | clear => listClear
  | length => listLength

/-- The list after an operation. An empty list has no last element to take away. -/
def apply : ListOp → List Cell → Option (List Cell)
  | push cell, cells => some (cells ++ [cell])
  | pop, [] => none
  | pop, cell :: rest => some (cell :: rest).dropLast
  | clear, _ => some []
  | length, cells => some cells

theorem apply_pop_append (cells : List Cell) (cell : Cell) :
    pop.apply (cells ++ [cell]) = some cells := by
  cases cells with
  | nil => rfl
  | cons first rest =>
    show some (first :: rest ++ [cell]).dropLast = _
    rw [List.dropLast_concat]

/-- What an operation answers. -/
def answer? : ListOp → List Cell → Option Datum
  | pop, cells => cells.getLast?.map .cell
  | length, cells => some (.number cells.length)
  | _, _ => none

/-- What an operation expects of the calculator. A value is appended from X, and not with a key. -/
def Ready : ListOp → Device → Prop
  | push cell, d => d.levels.x = .cell cell ∧ d.flags pairFlag = false
  | _, _ => True

end ListOp

namespace Device

/-- A program has changed neither a list nor which list the routines work on. -/
def KeepsList (d : Device) (name : String) (d' : Device) : Prop :=
  d'.registers (.named name) = d.registers (.named name) ∧
    d'.registers (.named listNameVariable) = d.registers (.named listNameVariable)

variable {h : Hardware} {d : Device} {name : String} {cells : List Cell}

/-- A calculator with nothing in it but the name of a list. -/
def naming (name : String) : Device :=
  blank.put (.named listNameVariable) (.text name)

theorem focuses_naming (hne : name ≠ listNameVariable) : (naming name).Focuses name none :=
  ⟨registers_put_self _ _ _, registers_put_of_ne _ _ fun heq => hne (by cases heq; rfl)⟩

/-- The calculator after a value has been appended to a list. -/
def afterAppend (d : Device) (name : String) (cells : List Cell) (cell : Cell) : Device :=
  (((((d.put (.named listValueVariable) (.cell cell)).flagged ignoreErrorFlag false).put
    (.named listRowVariable) (.number (cells.length + 1 : ℕ))).put (.named name)
      (.table (.ofColumn (cells ++ [cell])))).aim (.named name) (cells.length + 1) 1).holding
        ⟨.cell cell, .number (1 : ℕ), .number (cells.length + 1 : ℕ), .number (1 : ℕ)⟩

theorem Focuses.afterAppend (hfocus : d.Focuses name (ofColumn? cells))
    (hvalue : name ≠ listValueVariable) (hrow : name ≠ listRowVariable) (cell : Cell) :
    (d.afterAppend name cells cell).Focuses name (ofColumn? (cells ++ [cell])) := by
  have hput := (hfocus.put hvalue (by decide) (.cell cell)).put hrow (by decide)
    (.number (cells.length + 1 : ℕ))
  have hgrown := hput.put_table (.ofColumn (cells ++ [cell]))
  rw [ofColumn?_append_singleton]
  exact ⟨hgrown.selected, hgrown.holds⟩

/-- The calculator after the last element and the number of its row have been put aside. -/
def withLast (d : Device) (name : String) (n : Nat) (cell : Cell) : Device :=
  (((d.put (.named listRowVariable) (.number n)).put (.named listValueVariable) (.cell cell)).aim
    (.named name) n 1).holding ⟨.number (1 : ℕ), .number n, .cell cell, .number (1 : ℕ)⟩

theorem registers_withLast (d : Device) (name : String) (n : Nat) (cell : Cell) :
    (d.withLast name n cell).registers (.named listValueVariable) = some (.cell cell) :=
  registers_put_self (d.put (.named listRowVariable) (.number n))
    (.named listValueVariable) (.cell cell)

theorem Focuses.withLast {content : Option Table} (hfocus : d.Focuses name content)
    (hvalue : name ≠ listValueVariable) (hrow : name ≠ listRowVariable) (n : Nat) (cell : Cell) :
    (d.withLast name n cell).Focuses name content :=
  have hput := (hfocus.put hrow (by decide) (.number n)).put hvalue (by decide) (.cell cell)
  ⟨hput.selected, hput.holds⟩

end Device

namespace Hardware

variable {h : Hardware} {d d' : Device} {name : String} {cells : List Cell} {cell : Cell}

/-- The routine for an operation turns one list into another, answers, and keeps the flag for
keys. -/
structure Does (h : Hardware) (name : String) (op : ListOp) (cells cells' : List Cell)
    (d d' : Device) : Prop where
  performs : h.Performs op.routine d d'
  focuses : d'.Focuses name (Table.ofColumn? cells')
  answers : ∀ datum, op.answer? cells = some datum → d'.levels.x = datum
  flag : d'.flags pairFlag = d.flags pairFlag

/-- The routines do what a sequence of operations says, one operation after another. In between, a
program may change everything but the list and its name. -/
def Serves (h : Hardware) (name : String) : List ListOp → List Cell → Device → Prop
  | [], _, _ => True
  | op :: rest, cells, d => ∀ cells' d₁, op.apply cells = some cells' → d.KeepsList name d₁ →
      op.Ready d₁ → ∃ d₂, h.Does name op cells cells' d₁ d₂ ∧ h.Serves name rest cells' d₂

/-! ### Single operations -/

/-- The value is put aside. -/
theorem goes_listPush_value (hx : d.levels.x = .cell cell) (hpairs : d.flags pairFlag = false) :
    h.Goes listPush.code (d, 0)
      ((d.put (.named listValueVariable) (.cell cell)).flagged ignoreErrorFlag true, 6) := by
  obtain ⟨e, rfl⟩ := exists_flagged hpairs
  rw [← hx]
  exact .advanceFor (n := 4) rfl

/-- The number of rows and the last element are put aside. -/
theorem goes_listPop_last (hrow : name ≠ listRowVariable)
    (hfocus : d.Focuses name (some (.ofColumn (cells ++ [cell])))) :
    h.Goes listPop.code (d, 0) (d.withLast name (cells.length + 1) cell, 11) := by
  have haimed : (d.aim (.named name) 1 1).Focuses name (some (.ofColumn (cells ++ [cell]))) :=
    ⟨hfocus.selected, hfocus.holds⟩
  have hcount : h.Goes listPop.code ((d.aim (.named name) 1 1).push
      (.table (.ofColumn (cells ++ [cell]))), 2)
        (((d.put (.named listRowVariable)
          (.number (ofColumn (cells ++ [cell])).rows)).aim (.named name) 1 1).holding
            ⟨.number (1 : ℕ), .number (ofColumn (cells ++ [cell])).rows, d.levels.x, d.levels.y⟩,
          6) := .advanceFor (n := 4) rfl
  rw [rows_ofColumn_append] at hcount
  have hput := (hfocus.put hrow (by decide) (.number (cells.length + 1 : ℕ))).holds
  refine .trans (.perform rfl rfl hfocus.perform_index) ?_
  refine .trans (.perform rfl rfl haimed.perform_recall) (hcount.trans ?_)
  refine .trans (.perform rfl rfl (perform_storeIndex rfl hput rfl rfl has_ofColumn_append)) ?_
  refine .trans (.perform rfl rfl (perform_recallElement rfl hput get?_ofColumn_append)) ?_
  exact .advanceFor (n := 3) rfl

/-- A list with one element goes another way. -/
theorem goes_listPop_test (d : Device) (name : String) (n : Nat) (cell : Cell) :
    h.Goes listPop.code (d.withLast name (n + 1) cell, 11)
      (d.withLast name (n + 1) cell, if n = 0 then 17 else 13) := by
  have hholds : (d.withLast name (n + 1) cell).holds h .xEqY = some (decide (n = 0)) := by
    exact congrArg some (decide_eq_decide.mpr (Nat.cast_inj.trans Nat.succ_inj))
  refine .trans (.test rfl rfl nofun hholds) ?_
  by_cases hn : n = 0
  · rw [if_pos hn, if_pos hn]
    exact .advanceFor (n := 2) rfl
  · rw [if_neg hn, if_neg hn]
    exact .refl

theorem does_clear (hfocus : d.Focuses name (ofColumn? cells)) :
    ∃ d', h.Does name .clear cells [] d d' := by
  have hflagged : (d.flagged ignoreErrorFlag true).Focuses name (ofColumn? cells) :=
    ⟨hfocus.selected, hfocus.holds⟩
  have herased := hfocus.erase
  have hgoes : h.Goes listClear.code (d, 0)
      (((d.flagged ignoreErrorFlag true).erase (.named name)).flagged ignoreErrorFlag false, 3) :=
    .trans (.advance rfl : h.Goes _ _ (_, 1)) (.trans (.perform rfl rfl hflagged.perform_clear)
      (.advance rfl))
  exact ⟨_, performs_of_goes hgoes rfl, ⟨herased.selected, herased.holds⟩, nofun, rfl⟩

theorem does_length (hfocus : d.Focuses name (ofColumn? cells)) :
    ∃ d', h.Does name .length cells cells d d' := by
  obtain ⟨t, hperforms⟩ := performs_rowCount (h := h) hfocus d.levels
  rw [elim_ofColumn?] at hperforms
  refine ⟨_, hperforms, ⟨hfocus.selected, hfocus.holds⟩, fun datum hanswer => ?_, rfl⟩
  cases hanswer
  rfl

section

variable (hvalue : name ≠ listValueVariable) (hrow : name ≠ listRowVariable)

include hvalue hrow

theorem performs_append (hfocus : d.Focuses name (ofColumn? cells))
    (hx : d.levels.x = .cell cell)
    (hpairs : d.flags pairFlag = false) :
    h.Performs listPush d (d.afterAppend name cells cell) := by
  have hput : (d.put (.named listValueVariable) (.cell cell)).Focuses name (ofColumn? cells) :=
    hfocus.put hvalue (by decide) _
  have hput' : (((d.put (.named listValueVariable) (.cell cell)).flagged ignoreErrorFlag false).put
      (.named listRowVariable) (.number (cells.length + 1 : ℕ))).Focuses name (ofColumn? cells) :=
    have hput := hput.put hrow (by decide) _
    ⟨hput.selected, hput.holds⟩
  have hnumber := goes_listPush_row (h := h) hput hpairs (elim_ofColumn? cells) d.levels
  have hgrow := goes_listPush_grow (h := h) hput' hrow hpairs rfl (resize_ofColumn? cells)
    has_ofColumn_append d.levels.x d.levels.y
  have hset : (ofColumn (cells ++ [Cell.number 0])).set (cells.length + 1) 1 cell =
      .ofColumn (cells ++ [cell]) := set_ofColumn_append
  refine performs_of_goes ((goes_listPush_value hx hpairs).trans (hnumber.trans (hgrow.trans ?_)))
    (show InstrAt listPush.code 35 (.op .returns) from rfl)
  rw [Device.afterAppend, ← hset]
  exact goes_listPush_fill 33 rfl rfl (fun heq => hvalue (Register.named.inj heq)) rfl
    has_ofColumn_append _ _ _ _

theorem does_pop_only (hfocus : d.Focuses name (some (.ofColumn [cell]))) :
    ∃ d', h.Does name .pop [cell] [] d d' := by
  have hlast := hfocus.withLast hvalue hrow 1 cell
  have herased :
      ((d.withLast name 1 cell).erase (.named name)).registers (.named listValueVariable) =
      some (.cell cell) := by
    rw [registers_erase_of_ne fun heq => hvalue (Register.named.inj heq).symm, registers_withLast]
  have hfocus' := hlast.erase
  have hgoes : h.Goes listPop.code (d, 0)
      (((d.withLast name 1 cell).erase (.named name)).push (.cell cell), 19) := by
    refine (goes_listPop_last hrow
      (show d.Focuses name (some (.ofColumn ([] ++ [cell]))) from hfocus)).trans ?_
    refine (goes_listPop_test d name 0 cell).trans ?_
    exact .trans (.perform rfl rfl hlast.perform_clear) (.recalls rfl herased)
  refine ⟨_, performs_of_goes hgoes rfl, ⟨hfocus'.selected, hfocus'.holds⟩,
    fun datum hanswer => ?_, rfl⟩
  cases hanswer
  rfl

/-- The last of several elements is taken away with its row. -/
theorem does_pop_many
    (hmany : cells ≠ []) (hfocus : d.Focuses name (some (.ofColumn (cells ++ [cell])))) :
    ∃ d', h.Does name .pop (cells ++ [cell]) cells d d' := by
  have hlength : cells.length ≠ 0 := fun hzero => hmany (List.length_eq_zero_iff.mp hzero)
  have hlast := hfocus.withLast hvalue hrow (cells.length + 1) cell
  have hdelete := perform_deleteRow (h := h) (d := d.withLast name (cells.length + 1) cell) rfl
    hlast.holds (by rw [rows_ofColumn_append]; omega) (by rw [rows_ofColumn_append]; omega)
  rw [deleteRow_ofColumn_append] at hdelete
  have hshrunk := hlast.put_table (.ofColumn cells)
  have hcell : ((d.withLast name (cells.length + 1) cell).put (.named name)
      (.table (.ofColumn cells))).registers (.named listValueVariable) = some (.cell cell) := by
    rw [registers_put_of_ne _ _ fun heq => hvalue (Register.named.inj heq).symm, registers_withLast]
  have hcolumn : ofColumn? cells = some (.ofColumn cells) := by
    cases cells with
    | nil => exact absurd rfl hmany
    | cons => rfl
  have htest := goes_listPop_test (h := h) d name cells.length cell
  rw [if_neg hlength] at htest
  have hgoes : h.Goes listPop.code (d, 0) (push { (d.withLast name (cells.length + 1) cell).put
      (.named name) (.table (.ofColumn cells)) with pointer := none } (.cell cell), 15) := by
    refine (goes_listPop_last hrow hfocus).trans (htest.trans ?_)
    exact .trans (.perform rfl rfl hdelete) (.recalls rfl hcell)
  refine ⟨_, performs_of_goes hgoes rfl, hcolumn ▸ ⟨hshrunk.selected, hshrunk.holds⟩,
    fun datum hanswer => ?_, rfl⟩
  rw [ListOp.answer?, List.getLast?_concat] at hanswer
  cases hanswer
  rfl

/-- Each operation leaves the list for the next one. -/
theorem exists_does {op : ListOp} {cells' : List Cell}
    (hfocus : d.Focuses name (ofColumn? cells))
    (hready : op.Ready d) (happly : op.apply cells = some cells') :
    ∃ d', h.Does name op cells cells' d d' := by
  cases op with
  | push cell =>
    cases happly
    exact ⟨_, performs_append hvalue hrow hfocus hready.1 hready.2,
      hfocus.afterAppend hvalue hrow cell, nofun, rfl⟩
  | pop =>
    rcases List.eq_nil_or_concat cells with rfl | ⟨before, cell, rfl⟩
    · cases happly
    · rw [List.concat_eq_append] at hfocus happly ⊢
      rw [ListOp.apply_pop_append] at happly
      cases happly
      rw [ofColumn?_append_singleton] at hfocus
      rcases eq_or_ne cells' [] with rfl | hmany
      · exact does_pop_only hvalue hrow hfocus
      · exact does_pop_many hvalue hrow hmany hfocus
  | clear =>
    cases happly
    exact does_clear hfocus
  | length =>
    cases happly
    exact does_length hfocus

theorem serves_of_focuses
    (ops : List ListOp) (hfocus : d.Focuses name (ofColumn? cells)) :
    h.Serves name ops cells d := by
  induction ops generalizing cells d with
  | nil => trivial
  | cons op rest ih =>
    intro cells' d₁ happly hkeeps hready
    have hfocus₁ : d₁.Focuses name (ofColumn? cells) :=
      ⟨hkeeps.2.trans hfocus.selected, hkeeps.1.trans hfocus.holds⟩
    obtain ⟨d₂, hdoes⟩ := exists_does (h := h) hvalue hrow hfocus₁ hready happly
    exact ⟨d₂, hdoes, ih hdoes.focuses⟩

end

/-- The routines for lists do what any sequence of operations says, from an empty list on, if the
list is in none of the two variables that they work with. -/
theorem list_routines_refine_lists (h : Hardware) {name : String} {d : Device}
    (hvalue : name ≠ listValueVariable) (hrow : name ≠ listRowVariable)
    (hname : d.registers (.named listNameVariable) = some (.text name))
    (hmissing : d.registers (.named name) = none) (ops : List ListOp) : h.Serves name ops [] d :=
  serves_of_focuses hvalue hrow ops ⟨hname, hmissing⟩

/-- A value is pushed and taken away again, and the list is then missing as before. -/
theorem list_routines_refine_lists_push_pop : ∃ d₁ d₂,
    bare.Performs listPush ((Device.naming "L").push (.number 5)) d₁ ∧
      d₁.registers (.named "L") = some (.table (.ofColumn [.number 5])) ∧
      bare.Performs listPop d₁ d₂ ∧ d₂.levels.x = .number 5 ∧ d₂.registers (.named "L") = none := by
  have hfocus : (Device.naming "L").Focuses "L" none := Device.focuses_naming (by decide)
  have hserves := list_routines_refine_lists bare (show "L" ≠ listValueVariable by decide)
    (show "L" ≠ listRowVariable by decide) hfocus.selected hfocus.holds [.push (.number 5), .pop]
  obtain ⟨d₁, hpush, hserves⟩ := hserves _ ((Device.naming "L").push (.number 5)) rfl
    ⟨rfl, rfl⟩ ⟨rfl, rfl⟩
  obtain ⟨d₂, hpop, -⟩ := hserves _ d₁ rfl ⟨rfl, rfl⟩ trivial
  exact ⟨d₁, d₂, hpush.performs, hpush.focuses.holds, hpop.performs, hpop.answers _ rfl,
    hpop.focuses.holds⟩

/-! ### Lists in the variables of the routines -/

/-- The value is put aside in the list itself, and has no dimensions. -/
theorem not_performs_push_value (hx : d.levels.x = .cell cell) (hpairs : d.flags pairFlag = false)
    (hselected : d.registers (.named listNameVariable) = some (.text listValueVariable))
    (d' : Device) : ¬ h.Performs listPush d d' := by
  have hselected' : ((d.put (.named listValueVariable) (.cell cell)).flagged ignoreErrorFlag
      true).registers (.named listNameVariable) = some (.text listValueVariable) := by
    rw [registers_flagged, registers_put_of_ne _ _ (by decide), hselected]
  have hread : ((d.put (.named listValueVariable) (.cell cell)).flagged ignoreErrorFlag true).read?
      (.indirect (.named listNameVariable)) = some (.cell cell) := by
    rw [read?_indirect hselected', registers_flagged, registers_put_self]
  have hperform :
      ((d.put (.named listValueVariable) (.cell cell)).flagged ignoreErrorFlag true).perform h
      (onList .recallValue) = some (((d.put (.named listValueVariable) (.cell cell)).push
        (.cell cell)).flagged ignoreErrorFlag true, false) := perform_recall hread
  have hrecall : h.Goes listPush.code _ (_, 9) := goes_succeeded rfl rfl rfl hperform
  exact not_performs_of_failed ((goes_listPush_value hx hpairs).trans hrecall) rfl rfl rfl d'

theorem goes_listPush_overwritten
    (hselected : d.registers (.named listNameVariable) = some (.text listRowVariable))
    {rows columns : Nat} (hrows : 0 < rows) (hcolumns : 0 < columns) (z t : Datum) :
    ∃ d₁ table, d₁.levels.y = .table table ∧ d₁.flags = d.flags ∧ h.Goes listPush.code
      (d.holding ⟨.number columns, .number rows, z, t⟩, 22) (d₁, 26) := by
  obtain ⟨table, htable⟩ : ∃ table, (d.holding ⟨.number columns, .number rows, z, t⟩).perform h
      (onList .dimension) = some ((d.put (.named listRowVariable) (.table table)).holding
        ⟨.number columns, .number rows, z, t⟩, false) :=
    ⟨_, perform_dimension (register?_indirect hselected) rfl rfl hrows hcolumns⟩
  have hfocus : ((d.put (.named listRowVariable) (.table table)).holding
      ⟨.number columns, .number rows, z, t⟩).Focuses listRowVariable (some table) := by
    refine ⟨?_, d.registers_put_self (.named listRowVariable) (.table table)⟩
    rw [registers_holding, registers_put_of_ne _ _ (by decide), hselected]
  refine ⟨((d.put (.named listRowVariable) (.table table)).aim (.named listRowVariable) 1 1).holding
    ⟨.number (1 : ℕ), .table table, .number columns, .number rows⟩, table, rfl, rfl, ?_⟩
  refine .trans (.perform rfl rfl htable) (.trans (.perform rfl rfl hfocus.perform_index) ?_)
  exact .trans (.recalls rfl hfocus.holds) (.advance rfl)

/-- The number of the new row is put aside in the list itself, and is then no number. -/
theorem not_performs_push_row (hx : d.levels.x = .cell cell) (hpairs : d.flags pairFlag = false)
    (hfocus : d.Focuses listRowVariable none) (d' : Device) : ¬ h.Performs listPush d d' := by
  have hput : (d.put (.named listValueVariable) (.cell cell)).Focuses listRowVariable none :=
    hfocus.put (by decide) (by decide) _
  have hrow := goes_listPush_row (h := h) hput hpairs rfl d.levels
  have hselected :
      (((d.put (.named listValueVariable) (.cell cell)).flagged ignoreErrorFlag false).put
      (.named listRowVariable) (.number (0 + 1 : ℕ))).registers (.named listNameVariable) =
        some (.text listRowVariable) := by
    exact hput.selected
  obtain ⟨d₁, table, hy, hflags, hover⟩ := goes_listPush_overwritten (h := h) hselected Nat.one_pos
    (columnCount_pos false) d.levels.x d.levels.y
  refine not_performs_of_failed
    ((goes_listPush_value hx hpairs).trans (hrow.trans hover))
    (show InstrAt listPush.code 26 (.op .storeIndex) from rfl) rfl ?_ d'
  rw [attempt, perform_storeIndex_none hy, hflags]
  rfl

/-- A list cannot be kept in either of the two variables that the routines work with. -/
theorem lists_in_variables_of_routines :
    ((Device.naming listValueVariable).Focuses listValueVariable none ∧
      ¬ bare.Serves listValueVariable [.push (.number 5)] [] (Device.naming listValueVariable)) ∧
    ((Device.naming listRowVariable).Focuses listRowVariable none ∧
      ¬ bare.Serves listRowVariable [.push (.number 5)] [] (Device.naming listRowVariable)) := by
  have hvalue : (Device.naming listValueVariable).Focuses listValueVariable none :=
    Device.focuses_naming (by decide)
  have hrow : (Device.naming listRowVariable).Focuses listRowVariable none :=
    Device.focuses_naming (by decide)
  refine ⟨⟨hvalue, fun hserves => ?_⟩, hrow, fun hserves => ?_⟩
  · obtain ⟨d', hdoes, -⟩ := hserves _ ((Device.naming listValueVariable).push (.number 5)) rfl
      ⟨rfl, rfl⟩ ⟨rfl, rfl⟩
    exact not_performs_push_value (d := (Device.naming listValueVariable).push (.number 5)) rfl rfl
      hvalue.selected d' hdoes.performs
  · obtain ⟨d', hdoes, -⟩ := hserves _ ((Device.naming listRowVariable).push (.number 5)) rfl
      ⟨rfl, rfl⟩ ⟨rfl, rfl⟩
    exact not_performs_push_row (d := (Device.naming listRowVariable).push (.number 5)) rfl rfl
      ⟨hrow.selected, hrow.holds⟩ d' hdoes.performs

end Hardware

end Keystroke
