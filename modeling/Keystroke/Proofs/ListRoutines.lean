import Keystroke.Proofs.DictionaryRows
import Keystroke.Proofs.ListVariable

/-!
# The routines for dictionaries

A dictionary is a matrix with two columns in the variable that the routines work on.
-/

namespace Keystroke

open Reserved
open Routine (listLength listPush onList restoreStack saveStack)
open Table

/-! ### The selected dictionary -/

/-- What the variable of a dictionary with given rows holds. It is missing while there are none. -/
def dictionary : List (ℚ × ℚ) → Option Datum
  | [] => none
  | row :: rest => some (.table (.ofRows (row :: rest)))

/-- The matrix with given rows, if there are any. -/
def Table.ofRows? : List (ℚ × ℚ) → Option Table
  | [] => none
  | row :: rest => some (.ofRows (row :: rest))

theorem dictionary_eq_map (rows : List (ℚ × ℚ)) : dictionary rows = (ofRows? rows).map .table := by
  cases rows <;> rfl

theorem Table.elim_ofRows? (rows : List (ℚ × ℚ)) :
    (ofRows? rows).elim 0 Table.rows = rows.length := by
  cases rows <;> rfl

theorem Table.resize_ofRows? (rows : List (ℚ × ℚ)) :
    ((ofRows? rows).getD (.zeros 0 0)).resize (rows.length + 1) 2 = ofRows (rows ++ [(0, 0)]) := by
  refine resize_of_cells ?_
  cases rows <;> rfl

theorem dictionary_append (before after : List (ℚ × ℚ)) (row : ℚ × ℚ) :
    dictionary (before ++ row :: after) = some (.table (.ofRows (before ++ row :: after))) := by
  cases before <;> rfl

/-- A register that the routines for a dictionary do not work on. -/
def Register.IsApart (register : Register) (name : String) : Prop :=
  register ≠ .named name ∧ ∀ other ∈ variableNames, register ≠ .named other

namespace Device

variable {h : Hardware} {d : Device} {name other : String} {rows : List (ℚ × ℚ)} {datum : Datum}
  {table : Table}

/-! ### The dictionary -/

/-- The dictionary in a variable is the one that the routines work on. -/
structure Selects (d : Device) (name : String) (rows : List (ℚ × ℚ)) : Prop where
  selected : d.registers (.named listNameVariable) = some (.text name)
  holds : d.registers (.named name) = dictionary rows

theorem ne_of_reserved (hname : name ∉ variableNames) (hother : other ∈ variableNames) :
    Register.named name ≠ .named other := by
  intro heq
  cases heq
  exact hname hother

namespace Selects

theorem focuses (hselects : d.Selects name rows) : d.Focuses name (ofRows? rows) :=
  ⟨hselects.selected, hselects.holds.trans (dictionary_eq_map rows)⟩

/-- The other variables of the routines have nothing to do with the dictionary. -/
theorem put (hselects : d.Selects name rows) (hname : name ∉ variableNames)
    (hother : other ∈ variableNames) (hne : other ≠ listNameVariable) (datum : Datum) :
    (d.put (.named other) datum).Selects name rows :=
  have hput := hselects.focuses.put (fun heq => hname (heq ▸ hother)) hne datum
  ⟨hput.selected, hput.holds.trans (dictionary_eq_map rows).symm⟩

theorem put_rows (hselects : d.Selects name rows) (hname : name ∉ variableNames)
    {rows' : List (ℚ × ℚ)} (hdatum : dictionary rows' = some datum) :
    (d.put (.named name) datum).Selects name rows' where
  selected := by
    rw [registers_put_of_ne _ _ (ne_of_reserved hname (by decide)).symm]
    exact hselects.selected
  holds := by rw [registers_put_self, hdatum]

theorem perform_recall (hselects : d.Selects name rows) (hrows : dictionary rows = some datum) :
    d.perform h (onList .recallValue) = some (d.push datum, false) := by
  cases rows with
  | nil => cases hrows
  | cons row rest =>
    cases hrows
    exact hselects.focuses.perform_recall

theorem perform_index_none (hselects : d.Selects name []) : d.perform h (onList .index) = none :=
  hselects.focuses.perform_index_none

theorem perform_index (hselects : d.Selects name rows)
    (hrows : dictionary rows = some (.table table)) :
    d.perform h (onList .index) = some (d.aim (.named name) 1 1, false) := by
  cases rows with
  | nil => cases hrows
  | cons row rest => exact hselects.focuses.perform_index

end Selects

/-! ### What else is kept -/

/-- Only a dictionary and the variables of the routines have changed in the registers. -/
def Keeps (d : Device) (name : String) (d' : Device) : Prop :=
  ∀ register : Register, register.IsApart name → d'.registers register = d.registers register

namespace Keeps

variable {d' d'' : Device}

theorem refl (d : Device) (name : String) : d.Keeps name d := fun _ _ => rfl

theorem trans (hfirst : d.Keeps name d') (hsecond : d'.Keeps name d'') : d.Keeps name d'' :=
  fun register hapart => by rw [hsecond register hapart, hfirst register hapart]

theorem put (hkeeps : d.Keeps name d') (hother : other = name ∨ other ∈ variableNames)
    (datum : Datum) : d.Keeps name (d'.put (.named other) datum) := by
  intro register hapart
  have hne : register ≠ .named other := by
    rcases hother with rfl | hmem
    · exact hapart.1
    · exact hapart.2 other hmem
  rw [registers_put_of_ne _ _ hne, hkeeps register hapart]

end Keeps

/-! ### A row that is appended -/

/-- The key, the value and the number of a new row are put aside. -/
def withRow (d : Device) (n : Nat) (key value : ℚ) : Device :=
  ((d.put (.named listValueVariable) (.number value)).put (.named listKeyVariable)
    (.number key)).put (.named listRowVariable) (.number n)

/-- The calculator after a key and a value have been appended. -/
def afterPush (d : Device) (name : String) (rows : List (ℚ × ℚ)) (key value : ℚ) : Device :=
  ((((d.withRow (rows.length + 1) key value).flagged ignoreErrorFlag false).put (.named name)
    (.table (.ofRows (rows ++ [(key, value)])))).aim (.named name) (rows.length + 1) 2).holding
      ⟨.number value, .number key, .number (1 : ℕ), .number (rows.length + 1 : ℕ)⟩

theorem Selects.afterPush (hselects : d.Selects name rows) (hname : name ∉ variableNames)
    (key value : ℚ) : (d.afterPush name rows key value).Selects name (rows ++ [(key, value)]) := by
  have hrow : (d.withRow (rows.length + 1) key value).Selects name rows :=
    ((hselects.put hname (by decide) (by decide) _).put hname (by decide) (by decide) _).put hname
      (by decide) (by decide) _
  have hgrown := hrow.put_rows hname (dictionary_append rows [] (key, value))
  exact ⟨hgrown.selected, hgrown.holds⟩

theorem keeps_afterPush (d : Device) (name : String) (rows : List (ℚ × ℚ)) (key value : ℚ) :
    d.Keeps name (d.afterPush name rows key value) := by
  have hrow : d.Keeps name (d.withRow (rows.length + 1) key value) :=
    (((Keeps.refl d name).put (Or.inr (by decide)) _).put (Or.inr (by decide)) _).put
      (Or.inr (by decide)) _
  exact hrow.put (Or.inl rfl) (.table (.ofRows (rows ++ [(key, value)])))

end Device

namespace Hardware

variable {h : Hardware} {d : Device} {name : String} {rows : List (ℚ × ℚ)}
  {key value : ℚ}

/-! ### Appending a row -/

theorem goes_listPush_write (hname : name ∉ variableNames) (hselects : d.Selects name rows)
    (hpair : d.flags pairFlag = true)
    (hrow : d.registers (.named listRowVariable) = some (.number (rows.length + 1 : ℕ)))
    (hkey : d.registers (.named listKeyVariable) = some (.number key))
    (hvalue : d.registers (.named listValueVariable) = some (.number value)) (z t : Datum) :
    h.Goes listPush.code (d.holding ⟨.number (2 : ℕ), .number (rows.length + 1 : ℕ), z, t⟩, 22)
      (((d.put (.named name) (.table (.ofRows (rows ++ [(key, value)])))).aim
        (.named name) (rows.length + 1) 2).holding ⟨.number value, .number key, .number (1 : ℕ),
          .number (rows.length + 1 : ℕ)⟩, 35) := by
  have hgrow := goes_listPush_grow (h := h) hselects.focuses (fun heq => hname (heq ▸ by decide))
    hpair hrow (resize_ofRows? rows) (has_ofRows (by decide)) z t
  have hnext : (((d.put (.named name) (.table (.ofRows (rows ++ [(key, 0)])))).aim (.named name)
      (rows.length + 1) 1).holding ⟨.number key, .number (1 : ℕ), .number (rows.length + 1 : ℕ),
        .number (2 : ℕ)⟩).perform h (.op .nextColumn) =
      some (((d.put (.named name) (.table (.ofRows (rows ++ [(key, 0)])))).aim (.named name)
        (rows.length + 1) 2).holding ⟨.number key, .number (1 : ℕ), .number (rows.length + 1 : ℕ),
          .number (2 : ℕ)⟩, false) :=
    Device.perform_nextColumn rfl (Device.registers_put_self _ _ _) (by decide : 1 < 2)
      (has_ofRows (by decide))
  have hfirst : (rowCells (0, 0)).set 0 (.number key) = rowCells (key, 0) := rfl
  have hsecond : (rowCells (key, 0)).set 1 (.number value) = rowCells (key, value) := rfl
  -- the key is written, and then the value
  refine hgrow.trans (.trans (goes_listPush_fill 29 rfl rfl
    (Device.ne_of_reserved hname (by decide)) hkey (has_ofRows (by decide)) _ _ _ _) ?_)
  rw [set_ofRows (by decide) hfirst]
  refine .trans (.perform rfl rfl hnext) (.trans (.advance rfl : h.Goes _ _ (_, 33)) ?_)
  rw [← set_ofRows (by decide) hsecond]
  exact goes_listPush_fill 33 rfl rfl (Device.ne_of_reserved hname (by decide)) hvalue
    (has_ofRows (by decide)) _ _ _ _

theorem performs_listPush (hname : name ∉ variableNames) (hselects : d.Selects name rows)
    (hpair : d.flags pairFlag = true) (key value : ℚ) (z t : Datum) :
    h.Performs listPush (d.holding ⟨.number value, .number key, z, t⟩)
      (d.afterPush name rows key value) := by
  have hput : ((d.put (.named listValueVariable) (.number value)).put (.named listKeyVariable)
      (.number key)).Selects name rows :=
    (hselects.put hname (by decide) (by decide) _).put hname (by decide) (by decide) _
  have hrow := goes_listPush_row (h := h) hput.focuses hpair (elim_ofRows? rows)
    ⟨.number key, z, t, .number value⟩
  have hselects' :
      ((((d.put (.named listValueVariable) (.number value)).put (.named listKeyVariable)
      (.number key)).flagged ignoreErrorFlag false).put (.named listRowVariable)
        (.number (rows.length + 1 : ℕ))).Selects name rows :=
    have hput' := hput.put hname (by decide) (by decide) _
    ⟨hput'.selected, hput'.holds⟩
  have hwrite :=
    goes_listPush_write (h := h) (t := z) hname hselects' hpair rfl rfl rfl (.number key)
  obtain ⟨e, rfl⟩ := exists_flagged hpair
  exact performs_of_goes (.trans (.advanceFor (n := 6) rfl) (hrow.trans hwrite)) rfl

end Hardware

end Keystroke
