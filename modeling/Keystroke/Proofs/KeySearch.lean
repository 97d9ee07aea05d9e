import Keystroke.Proofs.ListRoutines
import Keystroke.Proofs.PackedCounters

/-!
# The search for a key

A routine sets the pointer to the value of a key in the selected dictionary. It puts the key and the
stack aside, goes through the rows with a loop counter, and stops at the first row with the key. If
there is none, it appends one, in case a flag asks for that.
-/

namespace Keystroke

open Reserved
open Routine (onList packCounter pointAtKey restoreStack saveStack)
open Device

/-! ### The counter of the rows -/

/-- The counter of a search that has passed some of the rows. -/
def rowCounter (done total : Nat) : ℚ :=
  ofUnits (packedUnits done total 1)

section Counters

variable {done total : Nat}

theorem ofNumber_rowCounter (htotal : total ≤ 999) :
    Counter.ofNumber (rowCounter done total) = ⟨done, max (total - 1) 0, 1⟩ := by
  rw [rowCounter, Counter.ofNumber_ofUnits,
    Counter.ofUnits_packedUnits (by omega) (le_refl 1) (by decide)]

theorem whole_rowCounter (htotal : total ≤ 999) : whole (rowCounter done total) = done :=
  congrArg Counter.count (ofNumber_rowCounter htotal)

theorem rowCounter_succ (done total : Nat) :
    rowCounter done total + (1 : ℤ) = rowCounter (done + 1) total := by
  have hnonneg : ∀ n : Nat, ¬ (n : ℤ) < 0 := fun n => by omega
  rw [rowCounter, rowCounter, packedUnits, packedUnits, if_neg (hnonneg _), if_neg (hnonneg _),
    ← ofUnits_add]
  congr 1
  push_cast
  ring

theorem isLast_rowCounter (htotal : total ≤ 999) (hdone : done < total) :
    (Counter.ofNumber (rowCounter done total)).isLast = decide (done + 1 = total) := by
  rw [ofNumber_rowCounter htotal, Counter.isLast, Counter.stride, decide_eq_decide]
  dsimp only
  omega

theorem packed_rows (total : Nat) : packed (0 : ℕ) total (1 : ℕ) = rowCounter 0 total := by
  have hpacked := packed_intCast 0 total 1
  push_cast at hpacked ⊢
  exact hpacked

end Counters

namespace Device

variable {h : Hardware} {d : Device} {name other : String} {rows : List (ℚ × ℚ)} {key : ℚ}
  {levels : Levels Datum} {done : Nat}

/-! ### What the search puts aside -/

/-- The key and the stack are put aside. -/
def aside (d : Device) (key : Datum) (levels : Levels Datum) : Device :=
  ((((d.put (.named keyVariable) key).put (.named saveX) levels.x).put (.named saveY) levels.y).put
    (.named saveZ) levels.z).put (.named saveT) levels.t

/-- The key and the stack are there. -/
structure Aside (d : Device) (key : ℚ) (levels : Levels Datum) : Prop where
  key : d.registers (.named keyVariable) = some (.number key)
  x : d.registers (.named saveX) = some levels.x
  y : d.registers (.named saveY) = some levels.y
  z : d.registers (.named saveZ) = some levels.z
  t : d.registers (.named saveT) = some levels.t

theorem Aside.of_registers {d' : Device} (haside : d.Aside key levels)
    (hregisters : d'.registers = d.registers) : d'.Aside key levels where
  key := hregisters ▸ haside.key
  x := hregisters ▸ haside.x
  y := hregisters ▸ haside.y
  z := hregisters ▸ haside.z
  t := hregisters ▸ haside.t

theorem Aside.put (haside : d.Aside key levels)
    (hother : other ∉ [keyVariable, saveX, saveY, saveZ, saveT]) (datum : Datum) :
    (d.put (.named other) datum).Aside key levels := by
  have hkept : ∀ kept ∈ [keyVariable, saveX, saveY, saveZ, saveT],
      (d.put (.named other) datum).registers (.named kept) = d.registers (.named kept) := by
    intro kept hmem
    refine registers_put_of_ne _ _ fun heq => ?_
    cases heq
    exact hother hmem
  refine ⟨?_, ?_, ?_, ?_, ?_⟩
  · rw [hkept _ (by decide), haside.key]
  · rw [hkept _ (by decide), haside.x]
  · rw [hkept _ (by decide), haside.y]
  · rw [hkept _ (by decide), haside.z]
  · rw [hkept _ (by decide), haside.t]

theorem Selects.aside (hselects : d.Selects name rows) (hname : name ∉ variableNames) (key : Datum)
    (levels : Levels Datum) : (d.aside key levels).Selects name rows :=
  ((((hselects.put hname (by decide) (by decide) _).put hname (by decide) (by decide) _).put hname
    (by decide) (by decide) _).put hname (by decide) (by decide) _).put hname
    (by decide) (by decide) _

theorem Aside.afterPush (haside : d.Aside key levels) (hname : name ∉ variableNames)
    (rows : List (ℚ × ℚ)) (key' value : ℚ) :
    (d.afterPush name rows key' value).Aside key levels := by
  have hother : name ∉ [keyVariable, saveX, saveY, saveZ, saveT] := fun hmem =>
    hname (List.Sublist.subset (by decide) hmem)
  have hrow : (d.withRow (rows.length + 1) key' value).Aside key levels :=
    ((haside.put (by decide) _).put (by decide) _).put (by decide) _
  exact (hrow.put hother (.table (.ofRows (rows ++ [(key', value)])))).of_registers rfl

/-- The pointer is at the value in a row of the selected dictionary. -/
structure Points (d : Device) (name : String) (before : List (ℚ × ℚ)) (row : ℚ × ℚ)
    (after : List (ℚ × ℚ)) : Prop where
  selects : d.Selects name (before ++ row :: after)
  pointer : d.pointer = some ⟨.named name, before.length + 1, 2⟩

namespace Points

variable {before after : List (ℚ × ℚ)} {row : ℚ × ℚ}

theorem table (hpoints : d.Points name before row after) :
    d.registers (.named name) = some (.table (.ofRows (before ++ row :: after))) := by
  rw [hpoints.selects.holds, dictionary_append]

theorem perform_store {value : ℚ} (hpoints : d.Points name before row after)
    (hvalue : d.levels.x = .number value) : d.perform h (.op .storeElement) =
      some (d.put (.named name) (.table (.ofRows (before ++ (row.1, value) :: after))), false) := by
  have hset : (Table.rowCells row).set 1 (.number value) = Table.rowCells (row.1, value) := rfl
  rw [← Table.set_ofRows (by decide) hset]
  exact perform_storeElement hpoints.pointer hpoints.table hvalue (Table.has_ofRows (by decide))

end Points

theorem aside_aside (d : Device) (key : ℚ) (levels : Levels Datum) :
    (d.aside (.number key) levels).Aside key levels :=
  ⟨rfl, rfl, rfl, rfl, rfl⟩

theorem keeps_aside (d : Device) (name : String) (key : Datum) (levels : Levels Datum) :
    d.Keeps name (d.aside key levels) :=
  (((((Keeps.refl d name).put (Or.inr (by decide)) _).put (Or.inr (by decide)) _).put
    (Or.inr (by decide)) _).put (Or.inr (by decide)) _).put (Or.inr (by decide)) _

/-! ### The loop -/

/-- The search is about to look at a row. -/
structure Searches (d : Device) (name : String) (rows : List (ℚ × ℚ)) (key : ℚ)
    (levels : Levels Datum) (done : Nat) : Prop where
  selects : d.Selects name rows
  aside : d.Aside key levels
  counter : d.registers (.named rowCounterVariable) = some (.number (rowCounter done rows.length))
  pointer : ∃ row column, d.pointer = some ⟨.named name, row, column⟩
  room : rows.length ≤ 999

/-- The counter is set up. -/
def counting (d : Device) (datum : Datum) (total : Nat) : Device :=
  (d.put (.named counterSaveVariable) datum).put (.named rowCounterVariable)
    (.number (rowCounter 0 total))

theorem Searches.holding (hsearch : d.Searches name rows key levels done) (held : Levels Datum) :
    (d.holding held).Searches name rows key levels done where
  selects := ⟨hsearch.selects.selected, hsearch.selects.holds⟩
  aside := hsearch.aside.of_registers rfl
  counter := hsearch.counter
  pointer := hsearch.pointer
  room := hsearch.room

/-- The calculator at the test of a row. -/
def atRow (d : Device) (name : String) (done : Nat) (key key' : ℚ) : Device :=
  (d.aim (.named name) (done + 1) 1).holding
    ⟨.number key, .number key', .number (1 : ℕ), .number (done + 1 : ℕ)⟩

/-- The calculator after a row has been passed. -/
def pastRow (d : Device) (name : String) (done total : Nat) (key key' : ℚ) : Device :=
  (d.atRow name done key key').put (.named rowCounterVariable)
    (.number (rowCounter (done + 1) total))

theorem Searches.next (hname : name ∉ variableNames)
    (hsearch : d.Searches name rows key levels done) (key' : ℚ) :
    (d.pastRow name done rows.length key key').Searches name rows key levels (done + 1) := by
  have hselects : (d.atRow name done key key').Selects name rows :=
    ⟨hsearch.selects.selected, hsearch.selects.holds⟩
  have haside : (d.atRow name done key key').Aside key levels := hsearch.aside.of_registers rfl
  exact {
    selects := hselects.put hname (by decide) (by decide) _
    aside := haside.put (by decide) _
    counter := registers_put_self _ _ _
    pointer := ⟨done + 1, 1, rfl⟩
    room := hsearch.room }

theorem keeps_pastRow (d : Device) (name : String) (done total : Nat) (key key' : ℚ) :
    d.Keeps name (d.pastRow name done total key key') := by
  have hkeeps : d.Keeps name (d.atRow name done key key') := .refl d name
  exact hkeeps.put (Or.inr (by decide)) _

end Device

namespace Hardware

variable {h : Hardware} {d : Device} {name : String} {key : ℚ} {row : ℚ × ℚ}
  {rows before skipped after : List (ℚ × ℚ)} {levels : Levels Datum}

theorem goes_pointAtKey_row
    (hsearch : d.Searches name (before ++ row :: after) key levels before.length) :
    h.Goes pointAtKey.code (d, 14) (d.atRow name before.length key row.1, 23) := by
  obtain ⟨i, j, hpointer⟩ := hsearch.pointer
  have htable : d.registers (.named name) = some (.table (.ofRows (before ++ row :: after))) := by
    rw [hsearch.selects.holds, dictionary_append]
  have hplace : h.Goes pointAtKey.code
      (d.push (.number (rowCounter before.length (before ++ row :: after).length)), 16)
      (d.holding ⟨.number (1 : ℕ),
        .number (((whole (rowCounter before.length (before ++ row :: after).length) : ℤ) : ℚ) +
          (1 : ℕ)), d.levels.x, d.levels.y⟩, 20) := .advanceFor (n := 4) rfl
  rw [whole_rowCounter hsearch.room, Int.cast_natCast, ← Nat.cast_add] at hplace
  have haim : (d.holding ⟨.number (1 : ℕ), .number (before.length + 1 : ℕ), d.levels.x,
      d.levels.y⟩).perform h (.op .storeIndex) = some ((d.aim (.named name) (before.length + 1)
        1).holding ⟨.number (1 : ℕ), .number (before.length + 1 : ℕ), d.levels.x, d.levels.y⟩,
          false) :=
    perform_storeIndex hpointer htable rfl rfl (Table.has_ofRows (by decide))
  have hcell : ((d.aim (.named name) (before.length + 1) 1).holding ⟨.number (1 : ℕ),
      .number (before.length + 1 : ℕ), d.levels.x, d.levels.y⟩).perform h (.op .recallElement) =
        some ((d.aim (.named name) (before.length + 1) 1).holding ⟨.number row.1, .number (1 : ℕ),
          .number (before.length + 1 : ℕ), d.levels.x⟩, false) :=
    perform_recallElement rfl htable (Table.get?_ofRows (by decide))
  refine .trans (.advance rfl : h.Goes _ _ (d, 15)) (.trans (.recalls rfl hsearch.counter) ?_)
  refine hplace.trans (.trans (.perform rfl rfl haim) (.trans (.perform rfl rfl hcell) ?_))
  exact .recalls rfl hsearch.aside.key

/-- The test of a row skips the way out exactly if the keys differ. -/
theorem goes_pointAtKey_test (d : Device) (name : String) (done : Nat) (key key' : ℚ) :
    h.Goes pointAtKey.code (d.atRow name done key key', 23)
      (d.atRow name done key key', if key' = key then 24 else 25) :=
  .test (o := .xEqY) rfl rfl nofun rfl

/-- A row with another key is passed. Behind the last one the loop ends. -/
theorem goes_pointAtKey_pass
    (hsearch : d.Searches name (before ++ row :: after) key levels before.length)
    (hkey : row.1 ≠ key) :
    h.Goes pointAtKey.code (d, 14)
      (d.pastRow name before.length (before ++ row :: after).length key row.1,
        25 + if after = [] then 2 else 1) := by
  have htotal : (before ++ row :: after).length = before.length + 1 + after.length := by
    rw [List.length_append, List.length_cons]
    omega
  have hlast :
      (Counter.ofNumber (rowCounter before.length (before ++ row :: after).length)).isLast =
      decide (after = []) := by
    rw [isLast_rowCounter hsearch.room (by omega), decide_eq_decide, htotal,
      ← List.length_eq_zero_iff]
    omega
  have hstride : (Counter.ofNumber
      (rowCounter before.length (before ++ row :: after).length)).stride = 1 := by
    rw [ofNumber_rowCounter hsearch.room]
    rfl
  have hcount := advance_count (h := h) (d := d.atRow name before.length key row.1)
    (show InstrAt pointAtKey.code 25
      (.memory .stepCounter (.register (.named rowCounterVariable))) from rfl) hsearch.counter
  simp only [hstride, rowCounter_succ, hlast, decide_eq_true_eq] at hcount
  have htest := goes_pointAtKey_test (h := h) d name before.length key row.1
  rw [if_neg hkey] at htest
  exact (goes_pointAtKey_row hsearch).trans (htest.trans (.advance hcount))

/-- The key and the stack are put aside. -/
theorem reaches_pointAtKey_start (d : Device) (key x y z : Datum) :
    h.Reaches pointAtKey.code (d.holding ⟨key, x, y, z⟩, 0)
      (((d.aside key ⟨x, y, z, key⟩).holding ⟨x, y, z, key⟩).flagged ignoreErrorFlag true, 4) := by
  have hbefore : h.Goes pointAtKey.code (d.holding ⟨key, x, y, z⟩, 0)
      ((d.put (.named keyVariable) key).holding ⟨x, y, z, key⟩, 2) := .advanceFor (n := 2) rfl
  have hset : h.Goes pointAtKey.code ((d.aside key ⟨x, y, z, key⟩).holding ⟨x, y, z, key⟩, 3)
      (((d.aside key ⟨x, y, z, key⟩).holding ⟨x, y, z, key⟩).flagged ignoreErrorFlag true, 4) :=
    .advance rfl
  have hsave : h.Performs saveStack ((d.put (.named keyVariable) key).holding ⟨x, y, z, key⟩)
      ((d.aside key ⟨x, y, z, key⟩).holding ⟨x, y, z, key⟩) :=
    performs_of_goes (.advanceFor (n := 8) rfl)
      (show InstrAt saveStack.code 8 (.op .returns) from rfl)
  exact hbefore.reaches.trans (.trans (.call rfl hsave) hset.reaches)

theorem goes_pointAtKey_index (hselects : d.Selects name rows)
    (hrows : dictionary rows = some (.table (.ofRows rows))) (held : Levels Datum) :
    h.Goes pointAtKey.code ((d.holding held).flagged ignoreErrorFlag true, 4)
      (((d.aim (.named name) 1 1).flagged ignoreErrorFlag false).holding held, 7) := by
  have hselects' : ((d.holding held).flagged ignoreErrorFlag true).Selects name rows :=
    ⟨hselects.selected, hselects.holds⟩
  have hindexed : ((d.holding held).flagged ignoreErrorFlag true).perform h (onList .index) =
      some (((d.holding held).aim (.named name) 1 1).flagged ignoreErrorFlag true, false) :=
    hselects'.perform_index hrows
  exact goes_succeeded (show InstrAt pointAtKey.code 4 (onList .index) from rfl) rfl rfl hindexed

theorem reaches_pointAtKey_count (hselects : d.Selects name rows)
    (hrows : dictionary rows = some (.table (.ofRows rows))) (hroom : rows.length ≤ 999)
    (held : Levels Datum) :
    h.Reaches pointAtKey.code (d.holding held, 7)
      ((d.counting held.x rows.length).holding ⟨.number (rowCounter 0 rows.length), held.x,
        .number (packedLimit rows.length), .number (0 : ℕ)⟩, 14) := by
  have hselects' : (d.holding (held.push (.number (0 : ℕ)))).Selects name rows :=
    ⟨hselects.selected, hselects.holds⟩
  have hzero : h.Goes pointAtKey.code (d.holding held, 7)
      (d.holding (held.push (.number (0 : ℕ))), 8) := .advance rfl
  have hsize : h.Goes pointAtKey.code
      (d.holding ((held.push (.number (0 : ℕ))).push (.table (.ofRows rows))), 9)
      (d.holding ⟨.number (1 : ℕ), .number rows.length, .number (0 : ℕ), held.x⟩, 12) :=
    .advanceFor (n := 3) rfl
  have hgoes := hzero.trans (.trans (.perform rfl rfl (hselects'.perform_recall hrows)) hsize)
  have hstop : (rows.length : ℚ) ≤ 999 := by exact_mod_cast hroom
  have hstore : h.Goes pointAtKey.code (afterPacking d (0 : ℕ) rows.length (1 : ℕ) held.x, 13)
      (_, 14) := .advance (advance_store rfl)
  rw [counting, ← packed_rows]
  refine hgoes.reaches.trans (.trans (.call rfl ?_) hstore.reaches)
  exact performs_packCounter d _ _ _ held.x hstop

/-- The stack is brought back at the end. -/
theorem performs_of_reaches_end {d' : Device} (hreaches : h.Reaches pointAtKey.code (d, 0) (d', 38))
    (haside : d'.Aside key levels) : h.Performs pointAtKey d (d'.holding levels) := by
  have hlabel : h.Goes pointAtKey.code (d', 38) (d', 39) := .advance rfl
  have hrestore : h.Goes restoreStack.code (d', 0) (d'.holding levels, 4) :=
    .trans (.recalls rfl haside.t) (.trans (.recalls rfl haside.z)
      (.trans (.recalls rfl haside.y) (.recalls rfl haside.x)))
  have hend : h.Reaches pointAtKey.code (d', 39) (d'.holding levels, 40) :=
    .call rfl (performs_of_goes hrestore rfl)
  exact performs_of_reaches (hreaches.trans (hlabel.reaches.trans hend)) rfl

variable (hname : name ∉ variableNames) {value : ℚ}

include hname

theorem goes_pointAtKey_skip
    (hsearch : d.Searches name (before ++ (skipped ++ row :: after)) key levels before.length)
    (hkey : key ∉ keys skipped) :
    ∃ d', h.Goes pointAtKey.code (d, 14) (d', 14) ∧
      d'.Searches name (before ++ (skipped ++ row :: after)) key levels (before ++ skipped).length ∧
      d.Keeps name d' ∧ d'.flags = d.flags := by
  induction skipped generalizing before d with
  | nil =>
    rw [List.append_nil]
    exact ⟨d, .refl, hsearch, .refl d name, rfl⟩
  | cons first rest ih =>
    obtain ⟨hfirst, hrest⟩ := not_or.mp (List.mem_cons.not.mp hkey)
    have hrows : before ++ (first :: rest ++ row :: after) =
        before ++ [first] ++ (rest ++ row :: after) := by
      rw [List.append_assoc]
      rfl
    have hdone : (before ++ [first]).length = before.length + 1 := List.length_append
    have hafter : rest ++ row :: after ≠ [] :=
      List.append_ne_nil_of_right_ne_nil rest (List.cons_ne_nil row after)
    have hpass := goes_pointAtKey_pass (h := h) (show d.Searches name
      (before ++ first :: (rest ++ row :: after)) key levels before.length from hsearch)
      (Ne.symm hfirst)
    have hnext := hsearch.next hname first.1
    rw [hrows, ← hdone] at hnext
    rw [if_neg hafter, show before ++ first :: (rest ++ row :: after) = _ from hrows] at hpass
    obtain ⟨d', hgoes, hfound, hkeeps, hflags⟩ := ih hnext hrest
    rw [List.append_assoc before [first] rest] at hfound
    rw [hrows]
    exact ⟨d', hpass.trans (.trans (.advance (advance_jump rfl rfl)) hgoes), hfound,
      .trans (keeps_pastRow _ _ _ _ _ _) hkeeps, hflags⟩

theorem goes_pointAtKey_found
    (hsearch : d.Searches name (before ++ (key, value) :: after) key levels 0)
    (hkey : key ∉ keys before) :
    ∃ d', h.Goes pointAtKey.code (d, 14) (d', 38) ∧
      d'.Points name before (key, value) after ∧ d'.Aside key levels ∧ d.Keeps name d' := by
  have hstart : d.Searches name ([] ++ (before ++ (key, value) :: after)) key levels
      ([] : List (ℚ × ℚ)).length := hsearch
  obtain ⟨e, hskip, hfound, hkeeps, -⟩ := goes_pointAtKey_skip (h := h) hname hstart hkey
  rw [List.nil_append, List.nil_append] at hfound
  have htest := goes_pointAtKey_test (h := h) e name before.length key key
  rw [if_pos rfl] at htest
  have hgo : h.Goes pointAtKey.code (e.atRow name before.length key key, 24)
      (e.atRow name before.length key key, 37) := .advanceFor (n := 2) rfl
  have htable : e.registers (.named name) =
      some (.table (.ofRows (before ++ (key, value) :: after))) := by
    rw [hfound.selects.holds, dictionary_append]
  have hnext : (e.atRow name before.length key key).perform h (.op .nextColumn) =
      some ((e.atRow name before.length key key).aim (.named name) (before.length + 1) 2, false) :=
    perform_nextColumn rfl htable (by decide : 1 < 2) (Table.has_ofRows (by decide))
  have hgoes := hgo.trans (.perform rfl rfl hnext)
  exact ⟨_, hskip.trans ((goes_pointAtKey_row hfound).trans (htest.trans hgoes)),
    ⟨⟨hfound.selects.selected, hfound.selects.holds⟩, rfl⟩, hfound.aside.of_registers rfl, hkeeps⟩

theorem goes_pointAtKey_missing
    (hsearch : d.Searches name (before ++ [row]) key levels 0)
    (hkey : key ∉ keys (before ++ [row])) :
    ∃ d', h.Goes pointAtKey.code (d, 14) (d', 27) ∧ d'.Selects name (before ++ [row]) ∧
      d'.Aside key levels ∧ d.Keeps name d' ∧ d'.flags = d.flags := by
  rw [keys, List.map_append, List.mem_append, not_or] at hkey
  obtain ⟨hbefore, hrow⟩ := hkey
  have hstart : d.Searches name ([] ++ (before ++ row :: [])) key levels
      ([] : List (ℚ × ℚ)).length := hsearch
  obtain ⟨e, hskip, hlast, hkeeps, hflags⟩ := goes_pointAtKey_skip (h := h) hname hstart hbefore
  have hne : row.1 ≠ key := fun heq => hrow (List.mem_singleton.mpr heq.symm)
  have hpast := hlast.next hname row.1
  exact ⟨_, hskip.trans (goes_pointAtKey_pass hlast hne), hpast.selects, hpast.aside,
    hkeeps.trans (keeps_pastRow _ _ _ _ _ _), hflags⟩

theorem reaches_pointAtKey_search (hselects : d.Selects name rows)
    (hrows : dictionary rows = some (.table (.ofRows rows))) (hroom : rows.length ≤ 999) (key : ℚ)
    (x y z : Datum) :
    ∃ d', h.Reaches pointAtKey.code (d.holding ⟨.number key, x, y, z⟩, 0) (d', 14) ∧
      d'.Searches name rows key ⟨x, y, z, .number key⟩ 0 ∧ d.Keeps name d' ∧
      d'.flags createKeyFlag = d.flags createKeyFlag := by
  have hkept := keeps_aside d name (.number key) ⟨x, y, z, .number key⟩
  have haside := aside_aside d key ⟨x, y, z, .number key⟩
  have hselects' := hselects.aside hname (.number key) ⟨x, y, z, .number key⟩
  have hindexed : (((d.aside (.number key) ⟨x, y, z, .number key⟩).aim (.named name) 1 1).flagged
      ignoreErrorFlag false).Selects name rows := ⟨hselects'.selected, hselects'.holds⟩
  have haside' : (((d.aside (.number key) ⟨x, y, z, .number key⟩).aim (.named name) 1 1).flagged
      ignoreErrorFlag false).Aside key ⟨x, y, z, .number key⟩ := haside.of_registers rfl
  have hindex := goes_pointAtKey_index (h := h) hselects' hrows ⟨x, y, z, .number key⟩
  have hcount := reaches_pointAtKey_count (h := h) hindexed hrows hroom ⟨x, y, z, .number key⟩
  refine ⟨_, (reaches_pointAtKey_start d _ x y z).trans (hindex.reaches.trans hcount),
    Searches.holding ?_ _,
    hkept.trans (((Keeps.refl _ name).put (Or.inr (by decide)) _).put (Or.inr (by decide)) _), rfl⟩
  exact {
    selects := (hindexed.put hname (by decide) (by decide) _).put hname (by decide) (by decide) _
    aside := (haside'.put (by decide) _).put (by decide) _
    counter := registers_put_self _ _ _
    pointer := ⟨1, 1, rfl⟩
    room := hroom }

theorem reaches_pointAtKey_create (hselects : d.Selects name rows)
    (haside : d.Aside key levels) (hcreate : d.flags createKeyFlag = true) :
    ∃ d', h.Reaches pointAtKey.code (d, 27) (d', 38) ∧
      d'.Points name rows (key, 0) [] ∧ d'.Aside key levels ∧ d.Keeps name d' := by
  obtain ⟨e, rfl⟩ := exists_flagged hcreate
  have hselects' : ((e.flagged createKeyFlag true).flagged pairFlag true).Selects name rows :=
    ⟨hselects.selected, hselects.holds⟩
  have haside' : ((e.flagged createKeyFlag true).flagged pairFlag true).Aside key levels :=
    haside.of_registers rfl
  have hpushed := hselects'.afterPush hname key 0
  have hbefore : h.Goes pointAtKey.code (e.flagged createKeyFlag true, 27)
      (e.flagged createKeyFlag true, 30) := .advanceFor (n := 2) rfl
  have hzero : h.Goes pointAtKey.code ((e.flagged createKeyFlag true).push (.number key), 31)
      (((e.flagged createKeyFlag true).flagged pairFlag true).holding
        ⟨.number 0, .number key, e.levels.x, e.levels.y⟩, 33) := .advanceFor (n := 2) rfl
  have hafter : h.Goes pointAtKey.code
      (((e.flagged createKeyFlag true).flagged pairFlag true).afterPush name rows key 0, 34)
      ((((e.flagged createKeyFlag true).flagged pairFlag true).afterPush name rows key 0).flagged
        pairFlag false, 38) := .advanceFor (n := 2) rfl
  have hgoes := hbefore.trans (.trans (.recalls rfl haside.key) hzero)
  refine ⟨_, hgoes.reaches.trans (.trans (.call rfl ?_) hafter.reaches),
    ⟨⟨hpushed.selected, hpushed.holds⟩, rfl⟩, (haside'.afterPush hname rows key 0).of_registers rfl,
    keeps_afterPush _ name rows key 0⟩
  exact performs_listPush hname hselects' rfl key 0 _ _

/-- The pointer is set to the value in the first row with a key. The stack loses the key, which goes
to T. -/
theorem performs_pointAtKey_found (hselects : d.Selects name (before ++ (key, value) :: after))
    (hkey : key ∉ keys before) (hroom : (before ++ (key, value) :: after).length ≤ 999)
    (x y z : Datum) :
    ∃ d', h.Performs pointAtKey (d.holding ⟨.number key, x, y, z⟩) d' ∧
      d'.levels = ⟨x, y, z, .number key⟩ ∧ d'.Points name before (key, value) after ∧
      d.Keeps name d' := by
  obtain ⟨e, hstart, hsearch, hkeeps, -⟩ := reaches_pointAtKey_search (h := h) hname hselects
    (dictionary_append before after (key, value)) hroom key x y z
  obtain ⟨d', hfound, hpoints, haside, hkeeps'⟩ := goes_pointAtKey_found (h := h) hname hsearch hkey
  exact ⟨_, performs_of_reaches_end (hstart.trans hfound.reaches) haside, rfl,
    ⟨⟨hpoints.selects.selected, hpoints.selects.holds⟩, hpoints.pointer⟩, hkeeps.trans hkeeps'⟩

theorem reaches_pointAtKey_none (hselects : d.Selects name rows) (hkey : key ∉ keys rows)
    (hroom : rows.length ≤ 999) (x y z : Datum) :
    ∃ d', h.Reaches pointAtKey.code (d.holding ⟨.number key, x, y, z⟩, 0) (d', 27) ∧
      d'.Selects name rows ∧ d'.Aside key ⟨x, y, z, .number key⟩ ∧ d.Keeps name d' ∧
      d'.flags createKeyFlag = d.flags createKeyFlag := by
  rcases List.eq_nil_or_concat' rows with rfl | ⟨before, row, rfl⟩
  · have hselects' := hselects.aside hname (.number key) ⟨x, y, z, .number key⟩
    have htried : (((d.aside (.number key) ⟨x, y, z, .number key⟩).holding
        ⟨x, y, z, .number key⟩).flagged ignoreErrorFlag true).Selects name [] :=
      ⟨hselects'.selected, hselects'.holds⟩
    have hfailed : h.Goes pointAtKey.code _ (_, 6) :=
      goes_failed rfl rfl rfl htried.perform_index_none
    have hgoes := hfailed.trans (.advance (advance_jump rfl rfl))
    exact ⟨_, (reaches_pointAtKey_start d _ x y z).trans hgoes.reaches,
      ⟨hselects'.selected, hselects'.holds⟩, (aside_aside d key _).of_registers rfl,
      keeps_aside d name _ ⟨x, y, z, .number key⟩, rfl⟩
  · obtain ⟨e, hstart, hsearch, hkeeps, hflag⟩ := reaches_pointAtKey_search (h := h) hname hselects
      (dictionary_append before [] row) hroom key x y z
    obtain ⟨d', hgoes, hselects', haside, hkeeps', hflags⟩ :=
      goes_pointAtKey_missing (h := h) hname hsearch hkey
    refine ⟨d', hstart.trans hgoes.reaches, hselects', haside, hkeeps.trans hkeeps', ?_⟩
    rw [hflags, hflag]

theorem performs_pointAtKey_created (hselects : d.Selects name rows) (hkey : key ∉ keys rows)
    (hroom : rows.length ≤ 999) (hcreate : d.flags createKeyFlag = true) (x y z : Datum) :
    ∃ d', h.Performs pointAtKey (d.holding ⟨.number key, x, y, z⟩) d' ∧
      d'.levels = ⟨x, y, z, .number key⟩ ∧ d'.Points name rows (key, 0) [] ∧ d.Keeps name d' := by
  obtain ⟨e, hmissing, hselects', haside, hkeeps, hflag⟩ :=
    reaches_pointAtKey_none (h := h) hname hselects hkey hroom x y z
  obtain ⟨d', hcreated, hpoints, haside', hkeeps'⟩ :=
    reaches_pointAtKey_create (h := h) hname hselects' haside (hflag.trans hcreate)
  exact ⟨_, performs_of_reaches_end (hmissing.trans hcreated) haside', rfl,
    ⟨⟨hpoints.selects.selected, hpoints.selects.holds⟩, hpoints.pointer⟩, hkeeps.trans hkeeps'⟩

theorem performs_pointAtKey_store (hselects : d.Selects name rows) (hroom : rows.length ≤ 999)
    (hcreate : d.flags createKeyFlag = true) (key : ℚ) (x y z : Datum) :
    ∃ before old after d', h.Performs pointAtKey (d.holding ⟨.number key, x, y, z⟩) d' ∧
      d'.levels = ⟨x, y, z, .number key⟩ ∧ d'.Points name before (key, old) after ∧
      (∀ value, storeRow key value rows = before ++ (key, value) :: after) ∧ d.Keeps name d' := by
  cases hlookup : rows.lookup key with
  | none =>
    have hkey := lookup_eq_none_iff.mp hlookup
    obtain ⟨d', hperforms, hlevels, hpoints, hkeeps⟩ :=
      performs_pointAtKey_created (h := h) hname hselects hkey hroom hcreate x y z
    exact ⟨rows, 0, [], d', hperforms, hlevels, hpoints, fun _ => storeRow_of_notMem hkey, hkeeps⟩
  | some old =>
    obtain ⟨before, after, rfl, hkey⟩ := exists_split_of_lookup hlookup
    obtain ⟨d', hperforms, hlevels, hpoints, hkeeps⟩ :=
      performs_pointAtKey_found (h := h) hname hselects hkey hroom x y z
    exact ⟨before, old, after, d', hperforms, hlevels, hpoints, fun _ =>
      storeRow_of_split hkey, hkeeps⟩

end Hardware

end Keystroke
