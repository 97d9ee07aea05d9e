import Mathlib.Logic.Function.Basic
import Keystroke.Proofs.StraightCode
import Keystroke.Proofs.SupportLibrary

/-!
# A machine for scalar code

The part of the calculator that code without containers needs: an operand stack without a bound,
registers, tests that skip a line, and jumps. What numbers are is left open. The support routines
for truth values and comparisons are taken by what they are documented to do.
-/

namespace Keystroke

variable {program code : List Instr} {line : Nat} {instr : Instr}

open Python (CompareOp)

/-! ### Numbers -/

/-- The numbers of a calculator, with the operations that can stop a program with an error. -/
structure Arithmetic (V : Type) where
  ofNat : Nat → V
  ofSpelling : String → V
  binary : Op → V → V → Option V
  /-- An operation on X. -/
  unary : Op → V → Option V
  isZero : V → Option Bool
  compare : CompareOp → V → V → Option Bool
  isZero_ofNat : ∀ n, isZero (ofNat n) = some (n == 0)
  /-- The operations on bits work on truth values. -/
  and_ofNat : ∀ a b : Bool,
    binary .and (ofNat a.toNat) (ofNat b.toNat) = some (ofNat (a && b).toNat)
  or_ofNat : ∀ a b : Bool,
    binary .or (ofNat a.toNat) (ofNat b.toNat) = some (ofNat (a || b).toNat)

/-- Whole numbers are such numbers. What is not computed here stops a program. -/
def Arithmetic.integers : Arithmetic Int where
  ofNat := Int.ofNat
  ofSpelling _ := 0
  binary
    | .add, a, b => some (a + b)
    | .sub, a, b => some (a - b)
    | .mul, a, b => some (a * b)
    | .and, a, b => some (if a = 0 ∨ b = 0 then 0 else 1)
    | .or, a, b => some (if a = 0 ∧ b = 0 then 0 else 1)
    | _, _, _ => none
  unary
    | .negate, a => some (-a)
    | .integerPart, a => some a
    | _, _ => none
  isZero a := some (a == 0)
  compare
    | .eq, a, b => some (a == b)
    | .notEq, a, b => some (a != b)
    | .lt, a, b => some (decide (a < b))
    | .le, a, b => some (decide (a ≤ b))
    | .gt, a, b => some (decide (b < a))
    | .ge, a, b => some (decide (b ≤ a))
    | _, _, _ => none
  isZero_ofNat n := by cases n <;> rfl
  and_ofNat := by decide
  or_ofNat := by decide

/-- The comparison that a routine makes. -/
def Routine.comparison? : Routine → Option CompareOp
  | equal => some .eq
  | notEqual => some .notEq
  | less => some .lt
  | lessEqual => some .le
  | greater => some .gt
  | greaterEqual => some .ge
  | _ => none

theorem Routine.comparison?_of_routine? {operator : CompareOp} {routine : Routine}
    (h : operator.routine? = some routine) : routine.comparison? = some operator := by
  cases operator <;> cases h <;> rfl

/-- The routine that a label calls, by its name or by its local number. -/
def Routine.ofLabel? : Label → Option Routine
  | .global name => ofName? name
  | .number n => all.find? (·.localLabel == n)
  | .letter _ => none

/-- Whether an instruction takes Y and X from the stack. -/
def Op.isBinary : Op → Bool
  | add | sub | mul | div | mod | pow | and | or | xor => true
  | _ => false

/-- Whether an instruction takes X from the stack. -/
def Op.isUnary : Op → Bool
  | negate | integerPart | not => true
  | _ => false

/-- The operation by which an instruction combines a register with X. -/
def MemoryOp.combination? : MemoryOp → Option Op
  | storeAdd => some .add
  | storeSub => some .sub
  | storeMul => some .mul
  | storeDiv => some .div
  | _ => none

namespace Arithmetic

variable {V : Type} (A : Arithmetic V)

/-- A truth value as a number. -/
def bit (b : Bool) : V :=
  A.ofNat b.toNat

/-- Whether a number counts as true. -/
def truth (v : V) : Option Bool :=
  (A.isZero v).map (!·)

theorem isZero_bit (b : Bool) : A.isZero (A.bit b) = some (!b) := by
  rw [bit, A.isZero_ofNat]
  cases b <;> rfl

@[simp] theorem truth_bit (b : Bool) : A.truth (A.bit b) = some b := by
  rw [truth, isZero_bit]
  simp

/-- What an instruction without an operand does to the stack. -/
def operate (o : Op) : List V → Option (List V)
  | [] => none
  | x :: rest =>
    if o.isUnary then (A.unary o x).map (· :: rest)
    else if o.isBinary then
      match rest with
      | [] => none
      | y :: rest => (A.binary o y x).map (· :: rest)
    else none

/-- Tests and returns take nothing from the stack. -/
theorem operate_of_isControl {o : Op} (h : o.isControl = true) (stack : List V) :
    A.operate o stack = none := by
  have hbinary : o.isBinary = false := by revert h; cases o <;> decide
  have hunary : o.isUnary = false := by revert h; cases o <;> decide
  cases stack with
  | nil => rfl
  | cons x rest => simp [operate, hbinary, hunary]

/-- What a support routine is documented to do to the stack. -/
def call : Routine → List V → Option (List V)
  | .truth, x :: rest => (A.truth x).map fun b => A.bit b :: rest
  | .negation, x :: rest => (A.truth x).map fun b => A.bit (!b) :: rest
  | .truthPair, x :: y :: rest =>
    (A.truth x).bind fun b => (A.truth y).map fun c => A.bit b :: A.bit c :: rest
  | routine, x :: y :: rest =>
    routine.comparison?.bind fun operator =>
      (A.compare operator y x).map fun b => A.bit b :: rest
  | _, _ => none

theorem call_comparison {routine : Routine} {operator : CompareOp}
    (h : routine.comparison? = some operator) (x y : V) (rest : List V) :
    A.call routine (x :: y :: rest) = (A.compare operator y x).map fun b => A.bit b :: rest := by
  cases routine <;> cases h <;> rfl

/-! ### Straight code -/

/-- The values on the stack and in the registers. -/
structure Store (V : Type) where
  stack : List V
  registers : Register → V

/-- What an instruction other than a test, a jump, a label or a return does. -/
def apply (instr : Instr) (store : Store V) : Option (Store V) :=
  match instr with
  | .int n => some { store with stack := A.ofNat n :: store.stack }
  | .decimal spelling => some { store with stack := A.ofSpelling spelling :: store.stack }
  | .op o => (A.operate o store.stack).map fun stack => { store with stack }
  | .xeq label => do
    let routine ← Routine.ofLabel? label
    let stack ← A.call routine store.stack
    return { store with stack }
  | .memory .recallValue (.register register) =>
    some { store with stack := store.registers register :: store.stack }
  | .memory .store (.register register) =>
    store.stack.head?.map fun x =>
      { store with registers := Function.update store.registers register x }
  | .memory o (.register register) => do
    let operation ← o.combination?
    let x ← store.stack.head?
    let v ← A.binary operation (store.registers register) x
    return { store with registers := Function.update store.registers register v }
  | _ => none

/-- Runs instructions one after the other. -/
def exec : List Instr → Store V → Option (Store V)
  | [], store => some store
  | instr :: rest, store => (A.apply instr store).bind (exec rest)

section

variable {A} {o : Op} {st : List V} {registers : Register → V}

theorem exec_unary (h : o.isUnary = true) (x : V) (rest : List Instr) :
    A.exec (.op o :: rest) ⟨x :: st, registers⟩ =
      (A.unary o x).bind fun v => A.exec rest ⟨v :: st, registers⟩ := by
  simp [exec, apply, operate, h, Option.bind_map, Function.comp_def]

theorem exec_binary (h : o.isBinary = true) (x y : V) (rest : List Instr) :
    A.exec (.op o :: rest) ⟨x :: y :: st, registers⟩ =
      (A.binary o y x).bind fun v => A.exec rest ⟨v :: st, registers⟩ := by
  have hunary : o.isUnary = false := by revert h; cases o <;> decide
  simp [exec, apply, operate, h, hunary, Option.bind_map, Function.comp_def]

theorem exec_call (routine : Routine) (rest : List Instr) :
    A.exec (Routine.call routine :: rest) ⟨st, registers⟩ =
      (A.call routine st).bind fun st => A.exec rest ⟨st, registers⟩ := by
  have happly : A.apply (Routine.call routine) ⟨st, registers⟩ =
      (A.call routine st).map (⟨·, registers⟩) := by
    show ((Routine.ofName? routine.name).bind _) = _
    cases hcall : A.call routine st <;> simp [hcall]
  rw [exec, happly, Option.bind_map]
  rfl

end

end Arithmetic

/-! ### Programs -/

/-- The line that a program is at, with the values on the stack and in the registers. -/
structure Machine (V : Type) extends Arithmetic.Store V where
  line : Nat

namespace Machine

open Arithmetic (Store)

variable {V : Type} (A : Arithmetic V) (program : List Instr)

/-- Goes on after a test. If it does not hold, the next line is skipped. -/
def afterTest (machine : Machine V) (holds : Bool) : Machine V :=
  { machine with line := machine.line + if holds then 1 else 2 }

/-- One step at an instruction. There is none from a return, or when something goes wrong. -/
def stepAt (machine : Machine V) : Instr → Option (Machine V)
  | .gto n => (jumpTarget? program machine.line n).map fun line => { machine with line }
  | .lbl _ => some { machine with line := machine.line + 1 }
  | .op .returns => none
  | .op .isZero => (machine.stack.head?.bind A.isZero).map machine.afterTest
  | .op .isNonzero => (machine.stack.head?.bind A.truth).map machine.afterTest
  | instr =>
    (A.apply instr machine.toStore).map fun store => { store with line := machine.line + 1 }

/-- One step of a program. -/
def step (machine : Machine V) : Option (Machine V) :=
  program[machine.line]?.bind (stepAt A program machine)

/-- The machine goes from one state to another in a number of steps. -/
inductive Steps : Nat → Machine V → Machine V → Prop where
  | refl (machine : Machine V) : Steps 0 machine machine
  | head {n : Nat} {machine next last : Machine V} (h : step A program machine = some next)
      (hrest : Steps n next last) : Steps (n + 1) machine last

/-- The machine comes to a return, after a number of steps. -/
def EndsIn (n : Nat) (machine last : Machine V) : Prop :=
  Steps A program n machine last ∧ InstrAt program last.line (.op .returns)

/-- The machine comes to a return. -/
def Ends (machine last : Machine V) : Prop :=
  ∃ n, EndsIn A program n machine last

variable {A program} {n m : Nat} {machine next last : Machine V}

theorem Steps.trans (h : Steps A program n machine next) (h' : Steps A program m next last) :
    Steps A program (n + m) machine last := by
  induction h with
  | refl => rwa [Nat.zero_add]
  | head hstep _ ih =>
    rw [Nat.succ_add]
    exact .head hstep (ih h')

theorem Steps.single (h : step A program machine = some next) : Steps A program 1 machine next :=
  .head h (.refl next)

theorem step_of_returns (h : InstrAt program last.line (.op .returns)) :
    step A program last = none := by
  rw [step, show program[last.line]? = some (.op .returns) from h]
  rfl

/-- A run to a return goes through whatever the machine goes through. -/
theorem EndsIn.after (h : EndsIn A program n machine last)
    (hsteps : Steps A program m machine next) : ∃ k, n = m + k ∧ EndsIn A program k next last := by
  induction hsteps generalizing n with
  | refl => exact ⟨n, (Nat.zero_add n).symm, h⟩
  | head hstep _ ih =>
    obtain ⟨hrun, hlast⟩ := h
    cases hrun with
    | refl =>
      rw [step_of_returns hlast] at hstep
      cases hstep
    | head hstep' hrest =>
      rw [hstep] at hstep'
      cases hstep'
      obtain ⟨k, hk, hends⟩ := ih ⟨hrest, hlast⟩
      exact ⟨k, by omega, hends⟩

/-- A run to a return makes its first step, unless it is there already. -/
theorem EndsIn.exists_step (h : EndsIn A program n machine last)
    (hnot : ¬ InstrAt program machine.line (.op .returns)) :
    ∃ next, step A program machine = some next := by
  obtain ⟨hrun, hlast⟩ := h
  cases hrun with
  | refl => exact absurd hlast hnot
  | head hstep _ => exact ⟨_, hstep⟩

end Machine

/-! ### Code in a program -/

def CodeAt (program : List Instr) (line : Nat) (code : List Instr) : Prop :=
  ∀ k instr, InstrAt code k instr → InstrAt program (line + k) instr

theorem CodeAt.head (h : CodeAt program line (instr :: code)) : InstrAt program line instr :=
  h 0 instr (instrAt_zero.mpr rfl)

theorem CodeAt.tail (h : CodeAt program line (instr :: code)) : CodeAt program (line + 1) code := by
  intro k other hother
  have hnext := h (k + 1) other (instrAt_succ.mpr hother)
  rwa [show line + (k + 1) = line + 1 + k by omega] at hnext

theorem codeAt_append {code₁ code₂ : List Instr} :
    CodeAt program line (code₁ ++ code₂) ↔
      CodeAt program line code₁ ∧ CodeAt program (line + code₁.length) code₂ := by
  constructor
  · intro h
    refine ⟨fun k instr hinstr => h k instr (hinstr.append _), fun k instr hinstr => ?_⟩
    have hlater := h (code₁.length + k) instr (instrAt_append.mpr (Or.inr ⟨by omega, by simpa⟩))
    rwa [← Nat.add_assoc] at hlater
  · rintro ⟨h₁, h₂⟩ k instr hinstr
    rcases instrAt_append.mp hinstr with hinstr | ⟨hle, hinstr⟩
    · exact h₁ k instr hinstr
    · have hlater := h₂ (k - code₁.length) instr hinstr
      rwa [show line + code₁.length + (k - code₁.length) = line + k by omega] at hlater

/-- Whether the machine goes on with the next line after an instruction. -/
def Instr.goesOn : Instr → Bool
  | .gto _ | .lbl _ | .op .isZero | .op .isNonzero | .op .returns => false
  | _ => true

namespace Machine

open Arithmetic (Store)

variable {V : Type} {A : Arithmetic V} {program code : List Instr} {line n : Nat} {last : Machine V}
  {store store' : Store V} {instr : Instr}

theorem step_at {machine : Machine V} (h : InstrAt program machine.line instr) :
    step A program machine = stepAt A program machine instr := by
  rw [step, show program[machine.line]? = some instr from h]
  rfl

theorem stepAt_of_goesOn (h : instr.goesOn = true) :
    stepAt A program ⟨store, line⟩ instr = (A.apply instr store).map (⟨·, line + 1⟩) := by
  cases instr with
  | gto n => cases h
  | lbl label => cases h
  | op o =>
    cases o
    case isZero | isNonzero | returns => cases h
    all_goals rfl
  | _ => rfl

theorem goesOn_of_apply (h : A.apply instr store = some store') : instr.goesOn = true := by
  cases instr with
  | gto n => cases h
  | lbl label => cases h
  | op o =>
    obtain ⟨stack, hstack, -⟩ := Option.map_eq_some_iff.mp h
    cases o
    case isZero | isNonzero | returns =>
      rw [A.operate_of_isControl rfl] at hstack
      cases hstack
    all_goals rfl
  | _ => rfl

theorem steps_of_exec (hcode : CodeAt program line code) (h : A.exec code store = some store') :
    Steps A program code.length ⟨store, line⟩ ⟨store', line + code.length⟩ := by
  induction code generalizing line store with
  | nil =>
    cases h
    exact .refl _
  | cons instr rest ih =>
    obtain ⟨middle, happly, hrest⟩ := Option.bind_eq_some_iff.mp h
    have hstep : step A program ⟨store, line⟩ = some ⟨middle, line + 1⟩ := by
      rw [step_at hcode.head, stepAt_of_goesOn (goesOn_of_apply happly), happly]
      rfl
    have hsteps := Steps.head hstep (ih hcode.tail hrest)
    rwa [show line + 1 + rest.length = line + (instr :: rest).length by
      rw [List.length_cons]; omega] at hsteps

/-- A run to a return executes the code that it comes through. -/
theorem EndsIn.exec (hcode : CodeAt program line code)
    (hgoesOn : ∀ instr ∈ code, instr.goesOn = true) (h : EndsIn A program n ⟨store, line⟩ last) :
    ∃ store' k, A.exec code store = some store' ∧ n = code.length + k ∧
      EndsIn A program k ⟨store', line + code.length⟩ last := by
  induction code generalizing line store n with
  | nil => exact ⟨store, n, rfl, by simp, h⟩
  | cons instr rest ih =>
    have hinstr := hgoesOn instr List.mem_cons_self
    have hnot : ¬ InstrAt program line (.op .returns) := by
      intro hreturns
      rw [← hreturns.unique hcode.head] at hinstr
      cases hinstr
    obtain ⟨next, hstep⟩ := h.exists_step hnot
    rw [step_at hcode.head, stepAt_of_goesOn hinstr] at hstep
    obtain ⟨middle, happly, rfl⟩ := Option.map_eq_some_iff.mp hstep
    have hfirst : step A program ⟨store, line⟩ = some ⟨middle, line + 1⟩ := by
      rw [step_at hcode.head, stepAt_of_goesOn hinstr, happly]
      rfl
    obtain ⟨k, rfl, hrest⟩ := h.after (.single hfirst)
    obtain ⟨store', j, hexec, rfl, hends⟩ :=
      ih hcode.tail (fun instr hmem => hgoesOn instr (List.mem_cons_of_mem _ hmem)) hrest
    refine ⟨store', j, ?_, by rw [List.length_cons]; omega, ?_⟩
    · rw [Arithmetic.exec, happly]
      exact hexec
    · rwa [show line + 1 + rest.length = line + (instr :: rest).length by
        rw [List.length_cons]; omega] at hends

end Machine

end Keystroke
