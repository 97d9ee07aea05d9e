import Keystroke.Proofs.Machine

/-!
# The four levels of the stack

The calculator has room for four operands. Entering a value pushes out the operand in T, and an
operation on Y and X leaves a second copy of T behind. Here code runs on these levels, and a call of
a support routine runs the lines of the routine.
-/

namespace Keystroke

open Python (BinaryOp CompareOp)
open Function Reserved Routine

/-! ### The stack -/

/-- The four levels of the stack. -/
structure Levels (V : Type) where
  x : V
  y : V
  z : V
  t : V
deriving DecidableEq, Repr

namespace Levels

variable {V : Type}

/-- The levels, from X on. -/
def toList (levels : Levels V) : List V :=
  [levels.x, levels.y, levels.z, levels.t]

/-- A value is entered. The one in T is lost. -/
def push (levels : Levels V) (v : V) : Levels V :=
  ⟨v, levels.x, levels.y, levels.z⟩

/-- A value takes the place of X. -/
def replace (levels : Levels V) (v : V) : Levels V :=
  { levels with x := v }

/-- A value takes the place of Y and X. The others come down, and T stays where it is, too. -/
def combine (levels : Levels V) (v : V) : Levels V :=
  ⟨v, levels.z, levels.t, levels.t⟩

/-- All levels come down, and X goes to T. -/
def rollDown (levels : Levels V) : Levels V :=
  ⟨levels.y, levels.z, levels.t, levels.x⟩

/-- X and Y change places. -/
def swap (levels : Levels V) : Levels V :=
  ⟨levels.y, levels.x, levels.z, levels.t⟩

end Levels

/-! ### Running code -/

/-- The stack, the flags and the registers. -/
structure Calculator (V : Type) where
  levels : Levels V
  flags : Nat → Bool
  registers : Register → V

def Op.comparison? : Op → Option CompareOp
  | xEqY => some .eq
  | xNeY => some .notEq
  | xGtY => some .lt
  | xGeY => some .le
  | xLtY => some .gt
  | xLeY => some .ge
  | _ => none

/-- Whether an instruction is a test or a return. -/
def Instr.isControl : Instr → Bool
  | .op o => o.isControl
  | .flag o _ => o.isControl
  | _ => false

namespace Arithmetic

variable {V : Type} (A : Arithmetic V) {o : Op}

/-- Whether a test holds, if it can be made. -/
def holds (c : Calculator V) : Instr → Option Bool
  | .op .isZero => A.isZero c.levels.x
  | .op .isNonzero => A.truth c.levels.x
  | .op o => o.comparison?.bind fun operator => A.compare operator c.levels.y c.levels.x
  | .flag .isSet (.number n) => some (c.flags n)
  | .flag .isClear (.number n) => some (!c.flags n)
  | _ => none

/-- What an instruction without an operand does to the levels. -/
def operateLevels (o : Op) (levels : Levels V) : Option (Levels V) :=
  match o with
  | .rollDown => some levels.rollDown
  | .swap => some levels.swap
  | o =>
    if o.isUnary then (A.unary o levels.x).map levels.replace
    else if o.isBinary then (A.binary o levels.y levels.x).map levels.combine
    else none

/-- What an instruction other than a test or a return does, where `call` runs a routine. -/
def act (call : Routine → Calculator V → Option (Calculator V)) (c : Calculator V) :
    Instr → Option (Calculator V)
  | .int n => some { c with levels := c.levels.push (A.ofNat n) }
  | .decimal spelling => some { c with levels := c.levels.push (A.ofSpelling spelling) }
  | .op o => (A.operateLevels o c.levels).map fun levels => { c with levels }
  | .memory .recallValue (.register register) =>
    some { c with levels := c.levels.push (c.registers register) }
  | .memory .store (.register register) =>
    some { c with registers := Function.update c.registers register c.levels.x }
  | .flag .set (.number n) => some { c with flags := Function.update c.flags n true }
  | .flag .clear (.number n) => some { c with flags := Function.update c.flags n false }
  | .xeq label => (Routine.ofLabel? label).bind fun routine => call routine c
  | _ => none

/-- Runs lines to a return or to their end. The first of them is skipped after a test that does not
hold. -/
def runLines (call : Routine → Calculator V → Option (Calculator V)) (skips : Bool) :
    List Instr → Calculator V → Option (Calculator V)
  | [], c => some c
  | instr :: rest, c =>
    if skips then runLines call false rest c
    else if instr.isControl = false then (A.act call c instr).bind (runLines call false rest)
    else if instr = .op .returns then some c
    else (A.holds c instr).bind fun holds => runLines call (!holds) rest c

/-- Runs a routine. There may be `pending` returns, that of the routine among them. -/
def perform : (pending : Nat) → Routine → Calculator V → Option (Calculator V)
  | 0, _, _ => none
  | pending + 1, routine, c => A.runLines (perform pending) false routine.code c

/-- Runs code. There may be `pending` returns. -/
def execute (pending : Nat) (code : List Instr) (c : Calculator V) : Option (Calculator V) :=
  A.runLines (A.perform pending) false code c

/-! ### Lines -/

section Lines

variable {A} {call : Routine → Calculator V → Option (Calculator V)} {instr : Instr}
  {levels : Levels V} {flags : Nat → Bool} {registers : Register → V} {c : Calculator V} {o : Op}

theorem runLines_rollDown (rest : List Instr) :
    A.runLines call false (.op .rollDown :: rest) c =
      A.runLines call false rest { c with levels := c.levels.rollDown } := rfl

theorem runLines_test (h : o.isControl = true) (hreturns : o ≠ .returns) (rest : List Instr) :
    A.runLines call false (.op o :: rest) c =
      (A.holds c (.op o)).bind fun holds => A.runLines call (!holds) rest c := by
  have hcontrol : ¬ (Instr.op o).isControl = false := by
    show ¬ o.isControl = false
    rw [h]
    decide
  rw [runLines, if_neg Bool.false_ne_true, if_neg hcontrol, if_neg (by simpa using hreturns)]

theorem runLines_call (routine : Routine) (rest : List Instr) :
    A.runLines call false (Routine.call routine :: rest) c =
      (call routine c).bind (A.runLines call false rest) := by
  show ((ofName? routine.name).bind _).bind _ = _
  rw [ofName?_name]
  rfl

theorem runLines_flagBit (n : Nat) (rest : List Instr) :
    A.runLines call false
        (onFlag .isSet n :: .int 1 :: onFlag .isClear n :: .int 0 :: rest) c =
      A.runLines call false rest { c with levels := c.levels.push (A.bit (c.flags n)) } := by
  show A.runLines call (!c.flags n) _ c = _
  cases hflag : c.flags n with
  | true =>
    -- 1 is entered, and 0 is skipped
    show A.runLines call (!!c.flags n) _ { c with levels := _ } = _
    rw [hflag]
    rfl
  | false =>
    -- 1 is skipped, and 0 is entered
    show A.runLines call (!!c.flags n) _ c = _
    rw [hflag]
    rfl

theorem runLines_flagTest (h : o.isControl = true) (hreturns : o ≠ .returns) (n : Nat)
    (rest : List Instr) :
    A.runLines call false (onFlag .clear n :: .op o :: onFlag .set n :: rest) c =
      (A.holds c (.op o)).bind fun b =>
        A.runLines call false rest { c with flags := update c.flags n b } := by
  have hcleared : A.holds { c with flags := update c.flags n false } (.op o) =
      A.holds c (.op o) := by
    cases o <;> rfl
  show A.runLines call false (.op o :: _) { c with flags := update c.flags n false } = _
  rw [runLines_test h hreturns, hcleared]
  refine congrArg _ (funext fun b => ?_)
  cases b with
  | true =>
    show A.runLines call false rest { c with flags := update (update _ _ _) _ _ } = _
    rw [update_idem]
  | false => rfl

end Lines

/-! ### Routines -/

section Routines

variable {A} (pending : Nat) (c : Calculator V)

/-- The flag takes the place of Y and X. The other two levels come down, and X goes to T. -/
theorem perform_flagValue :
    A.perform (pending + 1) .flagValue c =
      some { c with
        levels := c.levels.rollDown.rollDown.push (A.bit (c.flags scratchFlag)) } := by
  show A.runLines (A.perform pending) false (.op .rollDown :: .op .rollDown :: _) c = _
  rw [runLines_rollDown, runLines_rollDown, runLines_flagBit]
  rfl

/-- A comparison leaves its outcome in the place of Y and X, and in the scratch flag. -/
theorem perform_comparison {routine : Routine} {operator : CompareOp}
    (h : routine.comparison? = some operator) :
    A.perform (pending + 2) routine c =
      (A.compare operator c.levels.y c.levels.x).map fun b =>
        ⟨c.levels.rollDown.rollDown.push (A.bit b),
          Function.update c.flags Reserved.scratchFlag b, c.registers⟩ := by
  obtain ⟨test, hcode, hcontrol, hreturns, hholds⟩ : ∃ test : Op,
      routine.code = Routine.comparisonBody test ∧ test.isControl = true ∧ test ≠ .returns ∧
        A.holds c (.op test) = A.compare operator c.levels.y c.levels.x := by
    cases routine <;> cases h <;> exact ⟨_, rfl, rfl, nofun, rfl⟩
  show A.runLines (A.perform (pending + 1)) false routine.code c = _
  rw [hcode, Routine.comparisonBody, runLines_flagTest hcontrol hreturns, hholds]
  cases A.compare operator c.levels.y c.levels.x with
  | none => rfl
  | some b =>
    show A.runLines _ false (Routine.call .flagValue :: _) _ = _
    rw [runLines_call, perform_flagValue]
    show A.runLines _ false (.op .returns :: []) _ = _
    rfl

/-- What a test says of X takes its place. -/
theorem runLines_truthBody {call : Routine → Calculator V → Option (Calculator V)} {test : Op}
    (h : test.isControl = true) (hreturns : test ≠ .returns) :
    A.runLines call false (truthBody test) c =
      (A.holds c (.op test)).map fun b =>
        ⟨c.levels.replace (A.bit b), update c.flags scratchFlag b, c.registers⟩ := by
  rw [truthBody, runLines_flagTest h hreturns]
  cases A.holds c (.op test) with
  | none => rfl
  | some b =>
    show A.runLines _ false (.op .rollDown :: _) _ = _
    rw [runLines_rollDown, runLines_flagBit]
    rfl

theorem perform_truth :
    A.perform (pending + 1) .truth c = (A.truth c.levels.x).map fun b =>
      ⟨c.levels.replace (A.bit b), update c.flags scratchFlag b, c.registers⟩ :=
  runLines_truthBody c rfl nofun

/-- The truth values of Y and X take their places. -/
theorem perform_truthPair :
    A.perform (pending + 2) .truthPair c =
      (A.truth c.levels.x).bind fun b => (A.truth c.levels.y).map fun b' =>
        ⟨⟨A.bit b, A.bit b', c.levels.z, c.levels.t⟩,
          update c.flags scratchFlag b', c.registers⟩ := by
  show A.runLines (A.perform (pending + 1)) false (Routine.call .truth :: .op .swap :: _) c = _
  -- X first; then Y is swapped into its place and back
  rw [runLines_call, perform_truth, Option.bind_map]
  refine congrArg _ (funext fun b => ?_)
  show A.runLines _ false (Routine.call .truth :: _)
    { c with levels := Levels.swap _, flags := _ } = _
  rw [runLines_call, perform_truth, Option.bind_map, Option.map_eq_bind]
  refine congrArg _ (funext fun b' => ?_)
  show some (Calculator.mk _ (update (update c.flags _ b) _ b') _) = _
  rw [update_idem]
  rfl

end Routines

/-! ### Code that works on the levels -/

/-- Code does to the levels what `effect` says, whatever comes after it. It keeps the registers, and
all flags but the scratch flag. -/
def Acts (pending : Nat) (registers : Register → V) (code : List Instr)
    (effect : Levels V → Option (Levels V)) : Prop :=
  ∀ levels flags, ∃ flags' : Nat → Bool, (∀ n, n ≠ Reserved.scratchFlag → flags' n = flags n) ∧
    ∀ rest, A.execute pending (code ++ rest) ⟨levels, flags, registers⟩ =
      (effect levels).bind fun levels' => A.execute pending rest ⟨levels', flags', registers⟩

namespace Acts

variable {A} {pending : Nat} {registers : Register → V} {code code' : List Instr}
  {effect effect' : Levels V → Option (Levels V)} {o : Op} {routine : Routine}

theorem nil : A.Acts pending registers [] some :=
  fun _ flags => ⟨flags, fun _ _ => rfl, fun _ => rfl⟩

theorem append (h : A.Acts pending registers code effect)
    (h' : A.Acts pending registers code' effect') :
    A.Acts pending registers (code ++ code') fun levels => (effect levels).bind effect' := by
  intro levels flags
  obtain ⟨flags₁, hkept₁, hcode⟩ := h levels flags
  cases heffect : effect levels with
  | none =>
    -- nothing comes after a part that fails, so its flags can be taken
    refine ⟨flags₁, hkept₁, fun rest => ?_⟩
    show _ = ((effect levels).bind effect').bind _
    rw [List.append_assoc, hcode, heffect]
    rfl
  | some levels₁ =>
    obtain ⟨flags₂, hkept₂, hcode'⟩ := h' levels₁ flags₁
    refine ⟨flags₂, fun n hn => (hkept₂ n hn).trans (hkept₁ n hn), fun rest => ?_⟩
    show _ = ((effect levels).bind effect').bind _
    rw [List.append_assoc, hcode, heffect]
    exact hcode' rest

theorem congr (h : A.Acts pending registers code effect)
    (heffect : ∀ levels, effect levels = effect' levels) : A.Acts pending registers code effect' :=
  funext heffect ▸ h

theorem single {instr : Instr} (hcontrol : instr.isControl = false)
    (h : ∀ levels flags, A.act (A.perform pending) ⟨levels, flags, registers⟩ instr =
      (effect levels).map fun levels' => ⟨levels', flags, registers⟩) :
    A.Acts pending registers [instr] effect := by
  intro levels flags
  refine ⟨flags, fun _ _ => rfl, fun rest => ?_⟩
  show A.runLines _ false (instr :: rest) _ = _
  rw [runLines, if_neg Bool.false_ne_true, if_pos hcontrol, h, Option.bind_map]
  rfl

theorem unary (h : o.isUnary = true) :
    A.Acts pending registers [.op o] fun levels => (A.unary o levels.x).map levels.replace := by
  have hcontrol : (Instr.op o).isControl = false := by revert h; cases o <;> decide
  refine single hcontrol fun levels flags => ?_
  show (A.operateLevels o levels).map _ = _
  cases o <;> cases h <;> rfl

theorem binary (h : o.isBinary = true) :
    A.Acts pending registers [.op o] fun levels =>
      (A.binary o levels.y levels.x).map levels.combine := by
  have hcontrol : (Instr.op o).isControl = false := by revert h; cases o <;> decide
  refine single hcontrol fun levels flags => ?_
  show (A.operateLevels o levels).map _ = _
  cases o <;> cases h <;> rfl

theorem call
    (h : ∀ levels flags, ∃ b, A.perform pending routine ⟨levels, flags, registers⟩ =
      (effect levels).map fun levels' => ⟨levels', update flags scratchFlag b, registers⟩) :
    A.Acts pending registers [Routine.call routine] effect := by
  intro levels flags
  obtain ⟨b, hperform⟩ := h levels flags
  refine ⟨update flags scratchFlag b, fun n hn => update_of_ne hn b flags,
    fun rest => ?_⟩
  show A.runLines _ false (Routine.call routine :: rest) _ = _
  rw [runLines_call, hperform, Option.bind_map]
  rfl

/-- A routine that puts the outcome of one test on the levels leaves it in the scratch flag. -/
theorem tested {test : Levels V → Option Bool} {outcome : Levels V → Bool → Levels V}
    (h : ∀ c : Calculator V, A.perform pending routine c = (test c.levels).map fun b =>
      ⟨outcome c.levels b, update c.flags scratchFlag b, c.registers⟩) :
    A.Acts pending registers [Routine.call routine] fun levels =>
      (test levels).map (outcome levels) := by
  refine call fun levels flags => ?_
  rw [h]
  cases test levels with
  | none => exact ⟨false, rfl⟩
  | some b => exact ⟨b, rfl⟩

theorem comparison {operator : CompareOp} (h : routine.comparison? = some operator) :
    A.Acts (pending + 2) registers [Routine.call routine] fun levels =>
      (A.compare operator levels.y levels.x).map fun b => levels.rollDown.rollDown.push (A.bit b) :=
  tested fun c => perform_comparison pending c h

theorem truth :
    A.Acts (pending + 1) registers [Routine.call .truth] fun levels =>
      (A.truth levels.x).map fun b => levels.replace (A.bit b) :=
  tested (perform_truth pending)

theorem negation :
    A.Acts (pending + 1) registers [Routine.call .negation] fun levels =>
      (A.isZero levels.x).map fun b => levels.replace (A.bit b) :=
  tested fun c => runLines_truthBody c rfl nofun

theorem truthPair :
    A.Acts (pending + 2) registers [Routine.call .truthPair] fun levels =>
      (A.truth levels.x).bind fun b => (A.truth levels.y).map fun b' =>
        ⟨A.bit b, A.bit b', levels.z, levels.t⟩ := by
  refine call fun levels flags => ?_
  rw [perform_truthPair]
  cases A.truth levels.x with
  | none => exact ⟨false, rfl⟩
  | some b =>
    cases A.truth levels.y with
    | none => exact ⟨false, rfl⟩
    | some b' => exact ⟨b', rfl⟩

end Acts

end Arithmetic

end Keystroke
