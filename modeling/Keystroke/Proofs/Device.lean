import Mathlib.Data.Rat.Floor
import Keystroke.Proofs.FourLevels

/-!
# A calculator with matrices

The part of the calculator that loop counters, flags, lists and dictionaries need: exact numbers,
matrices in named variables with a pointer to one element, tests that skip a line, errors that a
flag lets a program ignore, and calls of routines. Whatever else the calculator can do is left open.
-/

namespace Keystroke

open Python (CompareOp)

/-! ### Matrices -/

/-- An element of a matrix. -/
inductive Cell where
  | number (value : ℚ)
  | text (text : String)

/-- A matrix, with its elements in order, row by row. -/
@[ext]
structure Table where
  rows : Nat
  columns : Nat
  cells : List Cell
  size : cells.length = rows * columns

namespace Table

/-- A matrix of zeros. -/
def zeros (rows columns : Nat) : Table where
  rows
  columns
  cells := List.replicate (rows * columns) (.number 0)
  size := List.length_replicate

/-- A matrix with other dimensions. The elements keep their order, and new ones are zero. -/
def resize (table : Table) (rows columns : Nat) : Table where
  rows
  columns
  cells := (table.cells ++ List.replicate (rows * columns) (Cell.number 0)).take (rows * columns)
  size := by
    rw [List.length_take, List.length_append, List.length_replicate]
    omega

/-- Whether a matrix has an element in a row and a column, both counted from 1. -/
def has (table : Table) (row column : Nat) : Bool :=
  1 ≤ row ∧ row ≤ table.rows ∧ 1 ≤ column ∧ column ≤ table.columns

/-- Where the element in a row and a column stands in the order of elements. -/
def place (table : Table) (row column : Nat) : Nat :=
  (row - 1) * table.columns + (column - 1)

def get? (table : Table) (row column : Nat) : Option Cell :=
  if table.has row column then table.cells[table.place row column]? else none

/-- The matrix with another element in a row and a column. -/
def set (table : Table) (row column : Nat) (cell : Cell) : Table :=
  { table with
    cells := table.cells.set (table.place row column) cell
    size := by rw [List.length_set, table.size] }

/-- The matrix without one of its rows. -/
def deleteRow (table : Table) (row : Nat) (hrow : 1 ≤ row ∧ row ≤ table.rows) : Table where
  rows := table.rows - 1
  columns := table.columns
  cells := table.cells.take ((row - 1) * table.columns) ++ table.cells.drop (row * table.columns)
  size := by
    have hbefore : (row - 1) * table.columns ≤ table.rows * table.columns :=
      Nat.mul_le_mul_right _ (Nat.le_trans (Nat.sub_le _ _) hrow.2)
    rw [List.length_append, List.length_take_of_le (table.size ▸ hbefore), List.length_drop,
      table.size, ← Nat.sub_mul, ← Nat.add_mul]
    congr 1
    omega

/-- The row and column after those given, around the end of a row and of the matrix. -/
def following (table : Table) (row column : Nat) : Nat × Nat :=
  if column < table.columns then (row, column + 1)
  else if row < table.rows then (row + 1, 1)
  else (1, 1)

end Table

/-! ### The state of the calculator -/

/-- What a register or a level of the stack can hold. -/
inductive Datum where
  | cell (cell : Cell)
  | table (table : Table)

namespace Datum

@[match_pattern]
def number (value : ℚ) : Datum := cell (.number value)

@[match_pattern]
def text (text : String) : Datum := cell (.text text)

def count? : Datum → Option Nat
  | number value => if value.isInt ∧ 0 ≤ value then some value.num.toNat else none
  | _ => none

theorem count?_natCast (n : Nat) : (number n).count? = some n := by
  show (if (n : ℚ).isInt ∧ 0 ≤ (n : ℚ) then some (n : ℚ).num.toNat else none) = some n
  rw [if_pos ⟨rfl, Nat.cast_nonneg n⟩]
  rfl

end Datum

/-- The element that the instructions on elements work on. -/
structure Pointer where
  register : Register
  row : Nat
  column : Nat

/-- The state of the calculator. -/
structure Device where
  levels : Levels Datum
  flags : Nat → Bool
  registers : Register → Option Datum
  alpha : String
  pointer : Option Pointer

/-- A calculator with nothing in it. -/
def Device.blank : Device where
  levels := ⟨.number 0, .number 0, .number 0, .number 0⟩
  flags _ := false
  registers _ := none
  alpha := ""
  pointer := none

/-! ### Loop counters -/

/-- The whole part of a number, with the fraction cut off. -/
def whole (value : ℚ) : ℤ :=
  if 0 ≤ value then ⌊value⌋ else ⌈value⌉

/-- A number read as a loop counter: the whole part counts, the first three digits of the fraction
are the final value, and the two after them the increment. -/
structure Counter where
  count : ℤ
  final : ℤ
  increment : ℤ
deriving DecidableEq

namespace Counter

def ofNumber (value : ℚ) : Counter where
  count := whole value
  final := ⌊|value| * 1000⌋ % 1000
  increment := ⌊|value| * 100000⌋ % 100

/-- How far a counter goes in one step: no increment stands for 1. -/
def stride (counter : Counter) : ℤ :=
  if counter.increment = 0 then 1 else counter.increment

/-- Whether the next step takes a counter beyond its final value. -/
def isLast (counter : Counter) : Bool :=
  counter.final < counter.count + counter.stride

end Counter

/-! ### Instructions -/

/-- What is left open of the calculator: how spelled numbers are read, the other operations on
numbers, and the other instructions. -/
structure Hardware where
  spelled : String → ℚ
  unary : Op → ℚ → Option ℚ
  binary : Op → ℚ → ℚ → Option ℚ
  other : Instr → Device → Option Device

namespace Hardware

/-- The calculator that can do nothing else. -/
def bare : Hardware where
  spelled _ := 0
  unary _ _ := none
  binary _ _ _ := none
  other _ _ := none

variable (h : Hardware)

/-- An operation on one number. -/
def apply : Op → ℚ → Option ℚ
  | .negate, a => some (-a)
  | .integerPart, a => some (whole a)
  | o, a => h.unary o a

/-- An operation on two numbers. The operations on bits are only fixed for bits. -/
def combine : Op → ℚ → ℚ → Option ℚ
  | .add, a, b => some (a + b)
  | .sub, a, b => some (a - b)
  | .mul, a, b => some (a * b)
  | .div, a, b => if b = 0 then none else some (a / b)
  | .and, a, b => if (a = 0 ∨ a = 1) ∧ (b = 0 ∨ b = 1) then some (a * b) else h.binary .and a b
  | .or, a, b =>
    if (a = 0 ∨ a = 1) ∧ (b = 0 ∨ b = 1) then some (a + b - a * b) else h.binary .or a b
  | o, a, b => h.binary o a b

/-- A comparison of two numbers. -/
def relates : CompareOp → ℚ → ℚ → Option Bool
  | .eq, a, b => some (decide (a = b))
  | .notEq, a, b => some (decide (a ≠ b))
  | .lt, a, b => some (decide (a < b))
  | .le, a, b => some (decide (a ≤ b))
  | .gt, a, b => some (decide (b < a))
  | .ge, a, b => some (decide (b ≤ a))
  | _, _, _ => none

/-- The arithmetic of the calculator. It stops at texts and matrices. -/
def arithmetic : Arithmetic Datum where
  ofNat n := .number n
  ofSpelling spelling := .number (h.spelled spelling)
  binary
    | o, .number a, .number b => (h.combine o a b).map .number
    | _, _, _ => none
  unary
    | o, .number a => (h.apply o a).map .number
    | _, _ => none
  isZero
    | .number a => some (decide (a = 0))
    | _ => none
  compare
    | operator, .number a, .number b => relates operator a b
    | _, _, _ => none
  isZero_ofNat n := congrArg some (by rw [Bool.eq_iff_iff]; simp)
  and_ofNat a b := by cases a <;> cases b <;> simp [combine]
  or_ofNat a b := by cases a <;> cases b <;> simp [combine]

end Hardware

namespace Device

variable (h : Hardware) (d : Device)

def level : StackLevel → Datum
  | .x => d.levels.x
  | .y => d.levels.y
  | .z => d.levels.z
  | .t => d.levels.t

def exchange : StackLevel → Levels Datum
  | .x => d.levels
  | .y => d.levels.swap
  | .z => ⟨d.levels.z, d.levels.y, d.levels.x, d.levels.t⟩
  | .t => ⟨d.levels.t, d.levels.y, d.levels.z, d.levels.x⟩

/-- The register that an instruction works on: a given one, or the variable whose name a register
holds. -/
def register? : Operand → Option Register
  | .register register => some register
  | .indirect holder =>
    match d.registers holder with
    | some (.text name) => some (.named name)
    | _ => none
  | .stack _ => none

/-- The datum that an instruction works on. -/
def read? : Operand → Option Datum
  | .stack level => some (d.level level)
  | operand => (d.register? operand).bind d.registers

/-- The calculator with other data on the stack. -/
def holding (levels : Levels Datum) : Device :=
  { d with levels }

/-- A datum is entered. -/
def push (datum : Datum) : Device :=
  { d with levels := d.levels.push datum }

def put (register : Register) (datum : Datum) : Device :=
  { d with registers := Function.update d.registers register (some datum) }

@[simp] theorem registers_holding (levels : Levels Datum) :
    (d.holding levels).registers = d.registers := rfl

@[simp] theorem registers_put_self (register : Register) (datum : Datum) :
    (d.put register datum).registers register = some datum := by
  simp only [put, Function.update_self]

theorem registers_put_of_ne {register other : Register} (datum : Datum) (hne : other ≠ register) :
    (d.put register datum).registers other = d.registers other := by
  simp only [put, Function.update_of_ne hne]

@[simp] theorem put_put (register : Register) (datum datum' : Datum) :
    (d.put register datum).put register datum' = d.put register datum' := by
  simp only [put, Function.update_idem]

/-- A flag is set or cleared. -/
def flagged (flag : Nat) (value : Bool) : Device :=
  { d with flags := Function.update d.flags flag value }

@[simp] theorem registers_flagged (flag : Nat) (value : Bool) :
    (d.flagged flag value).registers = d.registers := rfl

@[simp] theorem flags_holding (levels : Levels Datum) : (d.holding levels).flags = d.flags := rfl

@[simp] theorem flags_flagged_self (flag : Nat) (value : Bool) :
    (d.flagged flag value).flags flag = value := by
  simp only [flagged, Function.update_self]

theorem flags_flagged_of_ne {flag other : Nat} (value : Bool) (hne : other ≠ flag) :
    (d.flagged flag value).flags other = d.flags other := by
  simp only [flagged, Function.update_of_ne hne]

@[simp] theorem flagged_holding (levels : Levels Datum) (flag : Nat) (value : Bool) :
    (d.holding levels).flagged flag value = (d.flagged flag value).holding levels := rfl

@[simp] theorem holding_holding (levels levels' : Levels Datum) :
    (d.holding levels).holding levels' = d.holding levels' := rfl

@[simp] theorem flagged_self (flag : Nat) : d.flagged flag (d.flags flag) = d := by
  simp only [flagged, Function.update_eq_self]

@[simp] theorem flagged_flagged (flag : Nat) (value value' : Bool) :
    (d.flagged flag value).flagged flag value' = d.flagged flag value' := by
  simp only [flagged, Function.update_idem]

/-- The matrix in a register. -/
def table? (register : Register) : Option Table :=
  match d.registers register with
  | some (.table table) => some table
  | _ => none

/-- The pointer, with the matrix that it points into. -/
def target? : Option (Pointer × Table) :=
  d.pointer.bind fun pointer => (d.table? pointer.register).map fun table => (pointer, table)

/-- Points at an element of the indexed matrix, if there is such an element. -/
def pointAt (pointer : Pointer) (table : Table) (row column : Nat) : Option Device :=
  if table.has row column then some
    { d with pointer := some { pointer with row, column } } else none

/-- What an instruction without an operand does that neither tests nor returns. -/
def operate : Op → Option Device
  | .clearX => some { d with levels := d.levels.replace (.number 0) }
  | .dimensions =>
    match d.levels.x with
    | .table table =>
      some { d with
        levels := ⟨.number table.columns, .number table.rows, d.levels.y, d.levels.z⟩ }
    | _ => none
  | .storeIndex => do
    let (pointer, table) ← d.target?
    let row ← d.levels.y.count?
    let column ← d.levels.x.count?
    d.pointAt pointer table row column
  | .nextColumn => do
    let (pointer, table) ← d.target?
    let (row, column) := table.following pointer.row pointer.column
    d.pointAt pointer table row column
  | .recallElement => do
    let (pointer, table) ← d.target?
    let cell ← table.get? pointer.row pointer.column
    return d.push (.cell cell)
  | .storeElement => do
    let (pointer, table) ← d.target?
    let .cell cell := d.levels.x | none
    if table.has pointer.row pointer.column then
      return d.put pointer.register (.table (table.set pointer.row pointer.column cell))
    else
      none
  | .deleteRow => do
    let (pointer, table) ← d.target?
    -- the last row cannot be deleted; where the pointer is afterwards is left open
    if hrow : 1 < table.rows ∧ 1 ≤ pointer.row ∧ pointer.row ≤ table.rows then
      return { d.put pointer.register (.table (table.deleteRow pointer.row hrow.2)) with
        pointer := none }
    else
      none
  | .rollDown => some { d with levels := d.levels.rollDown }
  | .swap => some { d with levels := d.levels.swap }
  | o =>
    if o.isUnary then
      (h.arithmetic.unary o d.levels.x).map fun datum => { d with levels := d.levels.replace datum }
    else if o.isBinary then
      (h.arithmetic.binary o d.levels.y d.levels.x).map fun datum =>
        { d with levels := d.levels.combine datum }
    else
      h.other (.op o) d

/-- What an instruction on a register or a level does, a loop counter apart. -/
def access (o : MemoryOp) (operand : Operand) : Option Device :=
  match o with
  | .recallValue => (d.read? operand).map d.push
  | .store => (d.register? operand).map fun register => d.put register d.levels.x
  | .storeAlpha => (d.register? operand).map fun register => d.put register (.text d.alpha)
  | .recallAdd => do
    let datum ← d.read? operand
    let sum ← h.arithmetic.binary .add d.levels.x datum
    return { d with levels := d.levels.replace sum }
  | .exchange =>
    match operand with
    | .stack level => some { d with levels := d.exchange level }
    | _ => h.other (.memory o operand) d
  | .index => do
    let register ← d.register? operand
    let _ ← d.table? register
    return { d with pointer := some ⟨register, 1, 1⟩ }
  | .clearVariable => (d.register? operand).map fun register =>
    { d with registers := Function.update d.registers register none }
  | .dimension => do
    let register ← d.register? operand
    let rows ← d.levels.y.count?
    let columns ← d.levels.x.count?
    if 0 < rows ∧ 0 < columns then
      return d.put register (.table (((d.table? register).getD (.zeros 0 0)).resize rows columns))
    else
      none
  | _ => h.other (.memory o operand) d

/-- What an instruction does that neither tests nor jumps. -/
def act : Instr → Option Device
  | .int n => some (d.push (.number n))
  | .decimal spelling => some (d.push (.number (h.spelled spelling)))
  | .alpha text => some { d with alpha := text }
  | .alphaAppend text => some { d with alpha := d.alpha ++ text }
  | .op o => d.operate h o
  | .memory o operand => d.access h o operand
  | .flag .set (.number n) => some (d.flagged n true)
  | .flag .clear (.number n) => some (d.flagged n false)
  | instr => h.other instr d

/-! ### Tests -/

/-- Whether a test without an operand holds, if it can be made. -/
def holds : Op → Option Bool
  | .isZero => h.arithmetic.isZero d.levels.x
  | .isNonzero => h.arithmetic.truth d.levels.x
  | .isNegative => h.arithmetic.compare .lt d.levels.x (.number 0)
  | o => o.comparison?.bind fun operator => h.arithmetic.compare operator d.levels.y d.levels.x

/-- The flag whose number is in a level of the stack. There are a hundred flags. -/
def flag? (level : StackLevel) : Option Nat :=
  (d.level level).count?.filter (· < 100)

/-- A step of the loop counter in a register. Also says whether it is beyond its final value. -/
def count (operand : Operand) : Option (Device × Bool) := do
  let register ← d.register? operand
  let some (.number value) := d.registers register | none
  let counter := Counter.ofNumber value
  return (d.put register (.number (value + counter.stride)), counter.isLast)

/-- What a line does that is neither a jump, nor a call, nor a return. Also says whether the next
line is skipped. -/
def perform : Instr → Option (Device × Bool)
  | .lbl _ => some (d, false)
  | .memory .stepCounter operand => d.count operand
  | .flag .isSet (.number n) => some (d, !d.flags n)
  | .flag .isClear (.number n) => some (d, d.flags n)
  | .flag .isClearThenClear (.number n) => some (d.flagged n false, d.flags n)
  | .flag .isSet (.indirect level) => (d.flag? level).map fun n => (d, !d.flags n)
  | .flag .isClear (.indirect level) => (d.flag? level).map fun n => (d, d.flags n)
  | .op o =>
    if o.isControl then (d.holds h o).map fun holds => (d, !holds)
    else (d.act h (.op o)).map fun d' => (d', false)
  | instr => (d.act h instr).map fun d' => (d', false)

/-- The same, where an error is ignored if the flag for that is set. -/
def attempt (instr : Instr) : Option (Device × Bool) :=
  match d.perform h instr with
  | some result => some result
  | none =>
    if d.flags Reserved.ignoreErrorFlag then some (d.flagged Reserved.ignoreErrorFlag false, false)
    else none

end Device

/-- Whether a line goes to another line than the next two, or leaves its code. -/
def Instr.transfers : Instr → Bool
  | .xeq _ | .gto _ | .op .returns | .op .stop => true
  | _ => false

/-! ### Programs -/

/-- Code, with the line that a program is at. -/
structure Frame where
  code : List Instr
  line : Nat

/-- A program that runs: the state of the calculator, the code that it is in, and the code to which
it returns. -/
structure Process where
  device : Device
  frames : List Frame

namespace Hardware

variable (h : Hardware)

/-- One step inside a body of code. There is none from a call, a return or a stop. -/
def advance (code : List Instr) (d : Device) (line : Nat) : Option (Device × Nat) :=
  match code[line]? with
  | none | some (.xeq _) | some (.op .returns) | some (.op .stop) => none
  | some (.gto n) => (jumpTarget? code line n).map fun line => (d, line)
  | some instr => (d.attempt h instr).map fun (d, skips) => (d, line + if skips then 2 else 1)

def callee (code : List Instr) (label : Label) : Option Frame :=
  match Routine.ofLabel? label with
  | some routine => some ⟨routine.code, 0⟩
  | none => (code.findIdx? fun instr => instr = .lbl label).map fun line => ⟨code, line⟩

/-- One step of a program. -/
def step (p : Process) : Option Process :=
  match p.frames with
  | [] => none
  | ⟨code, line⟩ :: callers =>
    match code[line]? with
    | some (.xeq label) =>
      (callee code label).map fun frame => ⟨p.device, frame :: ⟨code, line + 1⟩ :: callers⟩
    | some (.op .returns) => some ⟨p.device, callers⟩
    | _ => (h.advance code p.device line).map fun (d, line) => ⟨d, ⟨code, line⟩ :: callers⟩

/-! ### Runs -/

/-- A run. All states in front of its last one have a property. -/
def Path (P : Process → Prop) : Process → Process → Prop :=
  Relation.ReflTransGen fun p q => P p ∧ h.step p = some q

/-- A run, with the states of some kind that it passes through on the way, in order. -/
inductive Passes (mark : Process → Prop) : List Process → Process → Process → Prop where
  | done (p : Process) : Passes mark [] p p
  | marked {p q r : Process} {ps : List Process} (hmark : mark p) (hstep : h.step p = some q)
      (hrest : Passes mark ps q r) : Passes mark (p :: ps) p r
  | other {p q r : Process} {ps : List Process} (hmark : ¬ mark p) (hstep : h.step p = some q)
      (hrest : Passes mark ps q r) : Passes mark ps p r

/-- Several steps inside a body of code. -/
def advanceFor (code : List Instr) : Nat → Device → Nat → Option (Device × Nat)
  | 0, d, line => some (d, line)
  | n + 1, d, line => (h.advance code d line).bind fun (d, line) => advanceFor code n d line

/-- A run from line to line of a body of code that makes no call. -/
def Goes (code : List Instr) : Device × Nat → Device × Nat → Prop :=
  Relation.ReflTransGen fun p q => h.advance code p.1 p.2 = some q

variable {h} {P Q mark : Process → Prop} {p q r : Process} {code : List Instr} {instr : Instr}

theorem Path.single (hp : P p) (hstep : h.step p = some q) : h.Path P p q :=
  Relation.ReflTransGen.single ⟨hp, hstep⟩

theorem Path.mono (hpath : h.Path P p q) (hmono : ∀ p, P p → Q p) : h.Path Q p q :=
  Relation.ReflTransGen.mono (fun p _ hstep => ⟨hmono p hstep.1, hstep.2⟩) p q hpath

/-- A run that passes through no state of a kind. -/
theorem Path.passes (hpath : h.Path (¬ mark ·) p q) :
    h.Passes mark [] p q := by
  induction hpath using Relation.ReflTransGen.head_induction_on with
  | refl => exact .done q
  | head hstep _ ih => exact .other hstep.1 hstep.2 ih

theorem Passes.trans {ps qs : List Process} (hfirst : h.Passes mark ps p q)
    (hsecond : h.Passes mark qs q r) : h.Passes mark (ps ++ qs) p r := by
  induction hfirst with
  | done => exact hsecond
  | marked hmark hstep _ ih => exact .marked hmark hstep (ih hsecond)
  | other hmark hstep _ ih => exact .other hmark hstep (ih hsecond)

/-- The program is in some code, with given code to return to. -/
def InFrame (code : List Instr) (callers : List Frame) (p : Process) : Prop :=
  ∃ line, p.frames = ⟨code, line⟩ :: callers

/-- The program has not yet returned. -/
def Above (callers : List Frame) (p : Process) : Prop :=
  callers.length < p.frames.length

section Steps

variable {code : List Instr} {callers : List Frame} {d d' : Device} {line line' n : Nat}

theorem above_of_inFrame (hp : InFrame code callers p) : Above callers p := by
  obtain ⟨line, hframes⟩ := hp
  rw [Above, hframes]
  exact Nat.lt_succ_self _

theorem step_of_advance (hadvance : h.advance code d line = some (d', line')) :
    h.step ⟨d, ⟨code, line⟩ :: callers⟩ = some ⟨d', ⟨code, line'⟩ :: callers⟩ := by
  have hmapped : (h.advance code d line).map
      (fun x : Device × Nat => (⟨x.1, ⟨code, x.2⟩ :: callers⟩ : Process)) =
        some ⟨d', ⟨code, line'⟩ :: callers⟩ := by rw [hadvance]; rfl
  unfold step
  dsimp only
  split
  · rename_i hinstr
    rw [advance, hinstr] at hadvance
    cases hadvance
  · rename_i hinstr
    rw [advance, hinstr] at hadvance
    cases hadvance
  · exact hmapped

variable {instr : Instr}

section

variable (hinstr : InstrAt code line instr) (htransfers : instr.transfers = false) {skips : Bool}

include hinstr htransfers

theorem advance_eq_map :
    h.advance code d line = (d.attempt h instr).map fun result =>
      (result.1, line + if result.2 then 2 else 1) := by
  unfold advance
  rw [show code[line]? = some instr from hinstr]
  cases instr with
  | xeq | gto => cases htransfers
  | op o =>
    cases o
    case returns | stop => cases htransfers
    all_goals rfl
  | _ => rfl

theorem advance_of_attempt (hattempt : d.attempt h instr = some (d', skips)) :
    h.advance code d line = some (d', line + if skips then 2 else 1) := by
  rw [advance_eq_map hinstr htransfers, hattempt]
  rfl

theorem advance_of_perform (hperform : d.perform h instr = some (d', skips)) :
    h.advance code d line = some (d', line + if skips then 2 else 1) :=
  advance_of_attempt hinstr htransfers (by rw [Device.attempt, hperform])

theorem advance_of_ignored (hperform : d.perform h instr = none)
    (hflag : d.flags Reserved.ignoreErrorFlag = true) :
    h.advance code d line = some (d.flagged Reserved.ignoreErrorFlag false, line + 1) := by
  have hattempt : d.attempt h instr = some (d.flagged Reserved.ignoreErrorFlag false, false) := by
    rw [Device.attempt, hperform]
    exact if_pos hflag
  exact advance_of_attempt hinstr htransfers hattempt

end

variable {b : Bool}

/-- A test skips the next line if it does not hold. -/
theorem advance_of_perform_test (hinstr : InstrAt code line instr)
    (htransfers : instr.transfers = false) (hperform : d.perform h instr = some (d', !b)) :
    h.advance code d line = some (d', line + if b then 1 else 2) := by
  rw [advance_of_perform hinstr htransfers hperform]
  cases b <;> rfl

variable {o : Op}

theorem perform_test (hcontrol : o.isControl = true)
    (hholds : d.holds h o = some b) : d.perform h (.op o) = some (d, !b) := by
  rw [Device.perform, if_pos hcontrol, hholds]
  rfl

theorem transfers_test (hcontrol : o.isControl = true) (hreturns : o ≠ .returns) :
    (Instr.op o).transfers = false := by
  cases o
  case returns => exact absurd rfl hreturns
  case stop => cases hcontrol
  all_goals rfl

variable {register : Register} {label : Label}

theorem advance_recall {datum : Datum}
    (hinstr : InstrAt code line (.recallValue register))
    (hdatum : d.registers register = some datum) :
    h.advance code d line = some (d.push datum, line + 1) := by
  have hperform : d.perform h (.recallValue register) = some (d.push datum, false) := by
    show (((some register).bind d.registers).map d.push).map _ = _
    rw [Option.bind_some, hdatum]
    rfl
  exact advance_of_perform hinstr rfl hperform

theorem advance_label (hinstr : InstrAt code line (.lbl label)) :
    h.advance code d line = some (d, line + 1) :=
  advance_of_attempt hinstr rfl rfl

theorem advance_store (hinstr : InstrAt code line (.store register)) :
    h.advance code d line = some (d.put register d.levels.x, line + 1) :=
  advance_of_attempt hinstr rfl rfl

theorem advance_jump {place : Nat} (hinstr : JumpAt code line n)
    (htarget : jumpTarget? code line n = some place) :
    h.advance code d line = some (d, place) := by
  unfold advance
  rw [show code[line]? = some (.gto n) from hinstr]
  show (jumpTarget? code line n).map _ = _
  rw [htarget]
  rfl

/-- A loop counter goes on. The next line is skipped once it is beyond its final value. -/
theorem advance_count {value : ℚ}
    (hinstr : InstrAt code line (.memory .stepCounter (.register register)))
    (hvalue : d.registers register = some (.number value)) :
    h.advance code d line =
      some (d.put register (.number (value + (Counter.ofNumber value).stride)),
      line + if (Counter.ofNumber value).isLast then 2 else 1) := by
  have hcount : d.count (.register register) =
      some (d.put register (.number (value + (Counter.ofNumber value).stride)),
        (Counter.ofNumber value).isLast) := by
    unfold Device.count
    simp only [Device.register?, Option.bind_eq_bind, Option.bind_some, hvalue]
    rfl
  exact advance_of_perform hinstr rfl hcount

namespace Goes

theorem trans {p q r : Device × Nat} (hfirst : h.Goes code p q) (hsecond : h.Goes code q r) :
    h.Goes code p r :=
  Relation.ReflTransGen.trans hfirst hsecond

theorem advance (hadvance : h.advance code d line = some (d', line')) :
    h.Goes code (d, line) (d', line') :=
  .single hadvance

theorem perform (hinstr : InstrAt code line instr) (htransfers : instr.transfers = false)
    (hperform : d.perform h instr = some (d', false)) : h.Goes code (d, line) (d', line + 1) :=
  advance (advance_of_perform hinstr htransfers hperform)

theorem recalls {datum : Datum} (hinstr : InstrAt code line (.recallValue register))
    (hdatum : d.registers register = some datum) : h.Goes code (d, line) (d.push datum, line + 1) :=
  advance (advance_recall hinstr hdatum)

/-- A test leads to one line or another. -/
theorem test {P : Prop} [Decidable P] (hinstr : InstrAt code line (.op o))
    (hcontrol : o.isControl = true) (hreturns : o ≠ .returns)
    (hholds : d.holds h o = some (decide P)) :
    h.Goes code (d, line) (d, if P then line + 1 else line + 2) := by
  have htest := advance_of_perform_test hinstr (transfers_test hcontrol hreturns)
    (perform_test hcontrol hholds)
  by_cases hP : P
  · rw [decide_eq_true hP] at htest
    rw [if_pos hP]
    exact advance htest
  · rw [decide_eq_false hP] at htest
    rw [if_neg hP]
    exact advance htest

theorem advanceFor (hadvance : h.advanceFor code n d line = some (d', line')) :
    h.Goes code (d, line) (d', line') := by
  induction n generalizing d line with
  | zero =>
    cases hadvance
    exact .refl
  | succ n ih =>
    obtain ⟨⟨d₁, line₁⟩, hfirst, hrest⟩ := Option.bind_eq_some_iff.mp hadvance
    exact .head hfirst (ih hrest)

theorem path (hgoes : h.Goes code (d, line) (d', line')) :
    h.Path (InFrame code callers) ⟨d, ⟨code, line⟩ :: callers⟩ ⟨d', ⟨code, line'⟩ :: callers⟩ :=
  Relation.ReflTransGen.lift (fun p : Device × Nat => (⟨p.1, ⟨code, p.2⟩ :: callers⟩ : Process))
    (fun p _ hstep => ⟨⟨p.2, rfl⟩, step_of_advance hstep⟩) _ _ hgoes

end Goes

theorem step_of_callee {frame : Frame} (hinstr : InstrAt code line (.xeq label))
    (hcallee : callee code label = some frame) :
    h.step ⟨d, ⟨code, line⟩ :: callers⟩ = some ⟨d, frame :: ⟨code, line + 1⟩ :: callers⟩ := by
  unfold step
  dsimp only
  rw [show code[line]? = some (.xeq label) from hinstr]
  show (callee code label).map _ = _
  rw [hcallee]
  rfl

theorem step_of_call {routine : Routine} (hinstr : InstrAt code line (Routine.call routine)) :
    h.step ⟨d, ⟨code, line⟩ :: callers⟩ =
      some ⟨d, ⟨routine.code, 0⟩ :: ⟨code, line + 1⟩ :: callers⟩ := by
  have hcallee : callee code (.global routine.name) = some ⟨routine.code, 0⟩ := by
    rw [callee, Routine.ofLabel?, Routine.ofName?_name]
  exact step_of_callee hinstr hcallee

theorem step_of_returns (hinstr : InstrAt code line (.op .returns)) :
    h.step ⟨d, ⟨code, line⟩ :: callers⟩ = some ⟨d, callers⟩ := by
  unfold step
  dsimp only
  rw [show code[line]? = some (.op .returns) from hinstr]

end Steps

variable {line : Nat} {d : Device}

theorem step_of_failed {callers : List Frame} (hinstr : InstrAt code line instr)
    (htransfers : instr.transfers = false) (hattempt : d.attempt h instr = none) :
    h.step ⟨d, ⟨code, line⟩ :: callers⟩ = none := by
  have hadvance : h.advance code d line = none := by
    rw [advance_eq_map hinstr htransfers, hattempt]
    rfl
  unfold step
  dsimp only
  rw [show code[line]? = some instr from hinstr, hadvance]
  split
  · rename_i hxeq
    cases hxeq
    cases htransfers
  · rename_i hreturns
    cases hreturns
    cases htransfers
  · rfl

/-- A program that stops has one end. -/
theorem Path.eq_of_stopped (hq : h.Path P p q) (hr : h.Path P p r) (hstop : h.step q = none)
    (hstop' : h.step r = none) : q = r := by
  have hunique : Relator.RightUnique fun p q => P p ∧ h.step p = some q :=
    fun _ _ _ hfirst hsecond =>
    Option.some.inj (hfirst.2.symm.trans hsecond.2)
  rcases Relation.ReflTransGen.total_of_right_unique hunique hq hr with hrest | hrest
  · rcases hrest.cases_head with heq | ⟨_, ⟨-, hstep⟩, -⟩
    · exact heq
    · rw [hstop] at hstep
      cases hstep
  · rcases hrest.cases_head with heq | ⟨_, ⟨-, hstep⟩, -⟩
    · exact heq.symm
    · rw [hstop'] at hstep
      cases hstep

/-- A routine returns, with the calculator in another state. -/
def Performs (h : Hardware) (routine : Routine) (d d' : Device) : Prop :=
  ∀ callers, h.Path (Above callers) ⟨d, ⟨routine.code, 0⟩ :: callers⟩ ⟨d', callers⟩

variable {routine : Routine} {d' : Device}

/-- A run from line to line of a body of code, in which calls return. -/
def Reaches (h : Hardware) (code : List Instr) (p q : Device × Nat) : Prop :=
  ∀ callers, h.Path (Above callers) ⟨p.1, ⟨code, p.2⟩ :: callers⟩ ⟨q.1, ⟨code, q.2⟩ :: callers⟩

theorem Goes.reaches {p q : Device × Nat} (hgoes : h.Goes code p q) :
    h.Reaches code p q :=
  fun _ => hgoes.path.mono fun _ => above_of_inFrame

theorem Reaches.trans {p q r : Device × Nat} (hfirst : h.Reaches code p q)
    (hsecond : h.Reaches code q r) : h.Reaches code p r :=
  fun callers => (hfirst callers).trans (hsecond callers)

theorem Reaches.call (hinstr : InstrAt code line (Routine.call routine))
    (hperforms : h.Performs routine d d') : h.Reaches code (d, line) (d', line + 1) := by
  refine fun callers => .head ⟨Nat.lt_succ_self _, step_of_call hinstr⟩
    ((hperforms _).mono fun p hp => ?_)
  exact Nat.lt_trans (Nat.lt_succ_self _) hp

/-- A run inside a routine that comes to its return. -/
theorem performs_of_reaches (hreaches : h.Reaches routine.code (d, 0) (d', line))
    (hreturns : InstrAt routine.code line (.op .returns)) :
    h.Performs routine d d' := fun callers =>
  (hreaches callers).trans (Path.single (Nat.lt_succ_self _) (step_of_returns hreturns))

theorem performs_of_goes (hgoes : h.Goes routine.code (d, 0) (d', line))
    (hreturns : InstrAt routine.code line (.op .returns)) : h.Performs routine d d' :=
  performs_of_reaches hgoes.reaches hreturns

theorem not_performs_of_failed {d₁ : Device} (hgoes : h.Goes routine.code (d, 0) (d₁, line))
    (hinstr : InstrAt routine.code line instr) (htransfers : instr.transfers = false)
    (hattempt : d₁.attempt h instr = none) (d' : Device) :
    ¬ h.Performs routine d d' := by
  intro hperforms
  have hend := Path.eq_of_stopped (hgoes.reaches []) (hperforms [])
    (step_of_failed hinstr htransfers hattempt) rfl
  cases hend

end Hardware

end Keystroke
