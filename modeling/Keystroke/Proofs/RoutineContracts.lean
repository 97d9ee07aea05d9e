import Keystroke.Proofs.DeviceExpressions
import Keystroke.Proofs.ExpressionRoom

/-!
# What the routines for numbers and flags leave behind

A comparison takes two numbers from the stack and leaves a bit, a truth value takes the place of the
number that it is of, and a flag test takes the place of the number of the flag. Each of these
routines has a flag of its own to work with, and everything else is as before.

A flag test clears its own flag before it looks at the flag that it is asked for. So it can be asked
for every flag but this one.
-/

namespace Keystroke

open Python (CompareOp)
open Reserved (scratchFlag testFlag)

/-! ### Comparisons of numbers -/

/-- What a comparison says of two numbers. -/
def Python.CompareOp.Holds : CompareOp → ℚ → ℚ → Prop
  | .eq, a, b => a = b
  | .notEq, a, b => a ≠ b
  | .lt, a, b => a < b
  | .le, a, b => a ≤ b
  | .gt, a, b => a > b
  | .ge, a, b => a ≥ b
  | _, _, _ => False

instance : ∀ (operator : CompareOp) (a b : ℚ), Decidable (operator.Holds a b)
  | .eq, a, b => inferInstanceAs (Decidable (a = b))
  | .notEq, a, b => inferInstanceAs (Decidable (a ≠ b))
  | .lt, a, b => inferInstanceAs (Decidable (a < b))
  | .le, a, b => inferInstanceAs (Decidable (a ≤ b))
  | .gt, a, b => inferInstanceAs (Decidable (a > b))
  | .ge, a, b => inferInstanceAs (Decidable (a ≥ b))
  | .is, _, _ | .isNot, _, _ | .isIn, _, _ | .notIn, _, _ => inferInstanceAs (Decidable False)

/-! ### Tests of flags -/

/-- The instruction that tests whether a flag is in a given state. -/
def FlagOp.testing : Bool → FlagOp
  | true => .isSet
  | false => .isClear

def Routine.testing : Bool → Routine
  | true => .flagSet
  | false => .flagClear

/-! ### The state afterwards -/

namespace Device

variable {d d' : Device} {flag n : Nat} {data : List Datum}

/-- A routine that works with one flag has put data on the stack, from X on, and has changed nothing
but the stack and this flag. -/
structure Leaves (d : Device) (flag : Nat) (data : List Datum) (d' : Device) : Prop where
  levels : d'.levels.Holds data
  flags : ∀ n ≠ flag, d'.flags n = d.flags n
  registers : d'.registers = d.registers
  alpha : d'.alpha = d.alpha
  pointer : d'.pointer = d.pointer

theorem leaves_holding {levels : Levels Datum} (b : Bool) (hdata : levels.Holds data) :
    d.Leaves flag data ((d.flagged flag b).holding levels) :=
  ⟨hdata, fun _ hne => flags_flagged_of_ne d b hne, rfl, rfl, rfl⟩

/-- The bit in X tells whether a flag was in a given state, and the flag still is in the state in
which it was. -/
def Tells (d : Device) (n : Nat) (state : Bool) (d' : Device) : Prop :=
  d'.levels.x = .number (if d.flags n = state then 1 else 0) ∧ d'.flags n = d.flags n

end Device

namespace Hardware

variable {h : Hardware} {d : Device} {x y : ℚ} {z t : Datum} {n : Nat} {levels : Levels Datum}
  {state : Bool}

theorem bit_decide (p : Prop) [Decidable p] :
    h.arithmetic.bit (decide p) = .number (if p then 1 else 0) := by
  by_cases hp : p
  · rw [decide_eq_true hp, if_pos hp]
    exact congrArg Datum.number Nat.cast_one
  · rw [decide_eq_false hp, if_neg hp]
    exact congrArg Datum.number Nat.cast_zero

/-! ### Comparisons and truth values -/

theorem arithmetic_truth (value : ℚ) :
    h.arithmetic.truth (.number value) = some (decide (value ≠ 0)) := by
  show (some (decide (value = 0))).map _ = _
  rw [Option.map_some, decide_not]

/-- The routines for comparisons and truth values leave the outcome of their comparison, keep the
levels below their operands, and change no register and no flag but the scratch flag. -/
theorem scalar_routines_meet_contracts (h : Hardware) {d : Device} {x y : ℚ} {z t : Datum}
    (hlevels : d.levels = ⟨.number x, .number y, z, t⟩) :
    (∀ operator routine, CompareOp.routine? operator = some routine →
      ∃ d', h.Performs routine d d' ∧
      d.Leaves scratchFlag [.number (if operator.Holds y x then 1 else 0), z, t] d') ∧
    (∃ d', h.Performs .truth d d' ∧
      d.Leaves scratchFlag [.number (if x ≠ 0 then 1 else 0), .number y, z, t] d') ∧
    (∃ d', h.Performs .negation d d' ∧
      d.Leaves scratchFlag [.number (if x = 0 then 1 else 0), .number y, z, t] d') ∧
    (∃ d', h.Performs .truthPair d d' ∧ d.Leaves scratchFlag
      [.number (if x ≠ 0 then 1 else 0), .number (if y ≠ 0 then 1 else 0), z, t] d') := by
  have htruth : h.arithmetic.truth d.levels.x = some (decide (x ≠ 0)) := by
    rw [hlevels]
    exact arithmetic_truth x
  refine ⟨fun operator routine hroutine => ?_, ?_, ?_, ?_⟩
  · have hcompare : h.arithmetic.compare operator d.levels.y d.levels.x =
        some (decide (operator.Holds y x)) := by
      rw [hlevels]
      cases operator <;> cases hroutine <;> rfl
    have hperforms := performs_comparison (Routine.comparison?_of_routine? hroutine) hcompare
    rw [bit_decide, hlevels] at hperforms
    exact ⟨_, hperforms, Device.leaves_holding _ ⟨[.number x], rfl⟩⟩
  · have hperforms := performs_truth htruth
    rw [bit_decide, hlevels] at hperforms
    exact ⟨_, hperforms, Device.leaves_holding _ List.prefix_rfl⟩
  · have hzero : h.arithmetic.isZero d.levels.x = some (decide (x = 0)) := by rw [hlevels]; rfl
    have hperforms := performs_negation hzero
    rw [bit_decide, hlevels] at hperforms
    exact ⟨_, hperforms, Device.leaves_holding _ List.prefix_rfl⟩
  · have htruth' : h.arithmetic.truth d.levels.y = some (decide (y ≠ 0)) := by
      rw [hlevels]
      exact arithmetic_truth y
    have hperforms := performs_truthPair htruth htruth'
    rw [bit_decide, bit_decide, hlevels] at hperforms
    exact ⟨_, hperforms, Device.leaves_holding _ List.prefix_rfl⟩

/-- 3 is less than 5, on a stack with a text and a matrix below these two. -/
theorem scalar_routines_meet_contracts_less : ∃ d',
    bare.Performs .less
      (Device.blank.holding ⟨.number 5, .number 3, .text "A", .table (.zeros 1 1)⟩) d' ∧
      (Device.blank.holding ⟨.number 5, .number 3, .text "A", .table (.zeros 1 1)⟩).Leaves
        scratchFlag [.number 1, .text "A", .table (.zeros 1 1)] d' := by
  have hcontract := (scalar_routines_meet_contracts bare (d := Device.blank.holding
    ⟨.number 5, .number 3, .text "A", .table (.zeros 1 1)⟩) rfl).1 .lt .less rfl
  rwa [if_pos (show (CompareOp.lt).Holds 3 5 by unfold CompareOp.Holds; norm_num)] at hcontract

/-! ### Flag tests -/

theorem perform_testing (hn : n < 100) (hx : d.levels.x = .number n) (state : Bool) :
    d.perform h (.flag (FlagOp.testing state) (.indirect .x)) =
      some (d, !decide (d.flags n = state)) := by
  have hflag : d.flag? .x = some n := by
    rw [Device.flag?, show d.level .x = _ from hx, Datum.count?_natCast, Option.filter_some,
      if_pos (decide_eq_true hn)]
  cases state with
  | true =>
    show (d.flag? .x).map _ = _
    rw [hflag, Option.map_some, Bool.decide_eq_true]
  | false =>
    show (d.flag? .x).map _ = _
    rw [hflag, Option.map_some, Bool.decide_eq_false, Bool.not_not]

/-- A flag test of its own flag answers that it is clear, and leaves it as it answers. -/
theorem tells_testFlag_iff (hx : levels.x = .number (if false = state then 1 else 0)) :
    d.Tells testFlag state ((d.flagged testFlag (decide (false = state))).holding levels) ↔
      state = true ∧ d.flags testFlag = false := by
  show levels.x = _ ∧ _ ↔ _
  rw [hx]
  cases state with
  | true =>
    cases hflag : d.flags testFlag with
    | true => exact ⟨fun htells => (nomatch htells.2), fun hclear => (nomatch hclear.2)⟩
    | false => exact ⟨fun _ => ⟨rfl, rfl⟩, fun _ => ⟨rfl, rfl⟩⟩
  | false =>
    refine ⟨fun ⟨hbit, hkept⟩ => ?_, fun hstate => nomatch hstate.1⟩
    -- the flag was set, so that the answer is wrong
    rw [← show true = d.flags testFlag from hkept] at hbit
    exact absurd hbit (by simp [Datum.number])

/-- A flag test finds its own flag clear and every other flag as it is. So it is right about every
other flag and keeps it. About its own flag it is right, and keeps it, only if it was clear and the
question is whether it is set. -/
theorem flag_tests_but_of_own_flag (h : Hardware) {d : Device} {n : Nat}
    {y z t : Datum} (hn : n < 100) (hlevels : d.levels = ⟨.number n, y, z, t⟩) (state : Bool) :
    ∃ d', h.Performs (Routine.testing state) d d' ∧
      d.Leaves testFlag
        [.number (if (d.flagged testFlag false).flags n = state then 1 else 0), y, z, t] d' ∧
      (d.Tells n state d' ↔ n ≠ testFlag ∨ (state = true ∧ d.flags n = false)) := by
  have hx : d.levels.x = .number n := by rw [hlevels]
  have hcode : (Routine.testing state).code = Routine.flagTestBody (FlagOp.testing state) := by
    cases state <;> rfl
  -- the routine's own flag is clear when the test is made
  have hperforms := performs_testBody hcode rfl
    (perform_testing (h := h) (d := d.flagged testFlag false) hn hx state)
  rw [bit_decide] at hperforms
  refine ⟨_, hperforms, Device.leaves_holding _ ?_, ?_⟩
  · rw [hlevels]
    exact List.prefix_rfl
  · rcases eq_or_ne n testFlag with rfl | hne
    · rw [Device.flags_flagged_self]
      refine (tells_testFlag_iff rfl).trans ⟨Or.inr, fun hcases => ?_⟩
      exact hcases.resolve_left fun hne => hne rfl
    · rw [Device.flags_flagged_of_ne _ _ hne]
      exact ⟨fun _ => Or.inl hne, fun _ => ⟨rfl, Device.flags_flagged_of_ne d _ hne⟩⟩

/-- The routine's own flag is set, and the routine finds that it is not. -/
theorem flag_tests_but_of_own_flag_set : ∃ d',
    bare.Performs .flagSet ((Device.blank.push (.number testFlag)).flagged testFlag true) d' ∧
      d'.levels.x = .number 0 ∧
      ¬ ((Device.blank.push (.number testFlag)).flagged testFlag true).Tells testFlag true d' := by
  obtain ⟨d', hperforms, hleaves, htells⟩ := flag_tests_but_of_own_flag bare
    (d := (Device.blank.push (.number testFlag)).flagged testFlag true) (n := testFlag)
    (by decide) rfl true
  refine ⟨d', hperforms, hleaves.levels.x_eq, ?_⟩
  rw [htells]
  decide

end Hardware

end Keystroke
