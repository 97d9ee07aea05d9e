import Keystroke.Proofs.Device
import Keystroke.Proofs.ExpressionLevels

/-!
# Scalar code on the calculator with matrices

The code of a scalar expression does to the stack of this calculator what the expression says, in
any program in which it stands. Registers, the alpha register and the pointer are kept, and all
flags but the scratch flag.
-/

namespace Keystroke

open Python (CompareOp)
open Device Reserved Routine

/-! ### Code in a program -/

theorem codeAt_of_append {program before code : List Instr} (h : before ++ code <+: program) :
    CodeAt program before.length code := by
  obtain ⟨rest, rfl⟩ := h
  intro k instr hk
  refine InstrAt.append (instrAt_append.mpr (Or.inr ⟨Nat.le_add_right _ _, ?_⟩)) rest
  rwa [Nat.add_sub_cancel_left]

theorem codeAt_zero {program code : List Instr} (h : code <+: program) : CodeAt program 0 code :=
  codeAt_of_append (show [] ++ code <+: program from h)

namespace Hardware

variable {h : Hardware} {d d' : Device} {program code code' : List Instr} {line first last : Nat}
  {callers : List Frame} {p q : Process}

/-- The program is in given lines of some code, or in a routine called from there. -/
def Between (program : List Instr) (callers : List Frame) (first last : Nat) (p : Process) : Prop :=
  (∃ line, first ≤ line ∧ line < last ∧ p.frames = ⟨program, line⟩ :: callers) ∨
    callers.length + 1 < p.frames.length

theorem Between.mono {first' last' : Nat} (hp : Between program callers first last p)
    (hfirst : first' ≤ first) (hlast : last ≤ last') : Between program callers first' last' p := by
  refine hp.imp_left fun ⟨line, hle, hlt, hframes⟩ => ⟨line, ?_, ?_, hframes⟩
  · exact Nat.le_trans hfirst hle
  · exact Nat.lt_of_lt_of_le hlt hlast

theorem Between.above (hp : Between program callers first last p) : Above callers p := by
  rcases hp with ⟨line, -, -, hframes⟩ | hlength
  · exact above_of_inFrame ⟨line, hframes⟩
  · exact Nat.lt_of_succ_lt hlength

/-- A line outside of those given is not passed. -/
theorem Between.not_at (hp : Between program callers first last p)
    (hline : line < first ∨ last ≤ line) : p.frames ≠ ⟨program, line⟩ :: callers := by
  intro hframes
  rcases hp with ⟨line', hle, hlt, hframes'⟩ | hlength
  · rw [hframes] at hframes'
    cases hframes'
    omega
  · rw [hframes] at hlength
    exact Nat.lt_irrefl _ hlength

theorem Between.path_trans {q r : Process} {middle : Nat}
    (hfirst : h.Path (Between program callers first middle) p q)
    (hsecond : h.Path (Between program callers middle last) q r) (hle : first ≤ middle)
    (hle' : middle ≤ last) : h.Path (Between program callers first last) p r :=
  (hfirst.mono fun _ hp => hp.mono (Nat.le_refl _) hle').trans
    (hsecond.mono fun _ hp => hp.mono hle (Nat.le_refl _))

theorem between_of_advance {line' : Nat} (hadvance : h.advance program d line = some (d', line')) :
    h.Path (Between program callers line (line + 1)) ⟨d, ⟨program, line⟩ :: callers⟩
      ⟨d', ⟨program, line'⟩ :: callers⟩ :=
  .single (Or.inl ⟨line, Nat.le_refl _, Nat.lt_succ_self _, rfl⟩) (step_of_advance hadvance)

variable {routine : Routine}

theorem between_of_call (hinstr : InstrAt program line (call routine))
    (hperforms : h.Performs routine d d') :
    h.Path (Between program callers line (line + 1)) ⟨d, ⟨program, line⟩ :: callers⟩
      ⟨d', ⟨program, line + 1⟩ :: callers⟩ := by
  have henter : Between program callers line (line + 1) ⟨d, ⟨program, line⟩ :: callers⟩ :=
    Or.inl ⟨line, Nat.le_refl _, Nat.lt_succ_self _, rfl⟩
  exact .head ⟨henter, step_of_call hinstr⟩ ((hperforms _).mono fun _ hp => Or.inr hp)

/-! ### Routines for scalars -/

variable {n : Nat} {b : Bool} {test : Instr}

theorem goes_flagTest (htransfers : test.transfers = false)
    (hcode : CodeAt code line [onFlag .clear n, test, onFlag .set n])
    (htest : (d.flagged n false).perform h test = some (d.flagged n false, !b)) :
    h.Goes code (d, line) (d.flagged n b, line + 3) := by
  have hclear : h.Goes code (d, line) (d.flagged n false, line + 1) :=
    .perform (hcode 0 _ rfl) rfl rfl
  have htest := hclear.trans (.advance (advance_of_perform_test (hcode 1 _ rfl) htransfers htest))
  cases b with
  | true =>
    have hset : h.Goes code (d.flagged n false, line + 2)
        ((d.flagged n false).flagged n true, line + 3) := .perform (hcode 2 _ rfl) rfl rfl
    rw [flagged_flagged] at hset
    exact htest.trans hset
  | false => exact htest

theorem perform_test_flagged {o : Op} (hcontrol : o.isControl = true)
    (hholds : d.holds h o = some b) (n : Nat) (value : Bool) :
    (d.flagged n value).perform h (.op o) = some (d.flagged n value, !b) := by
  refine perform_test hcontrol ?_
  rw [← hholds]
  cases o <;> rfl

/-- Lines that enter a flag as 1 or 0. -/
theorem goes_flagBit (hflag : d.flags n = b)
    (hcode : CodeAt code line [onFlag .isSet n, .int 1, onFlag .isClear n, .int 0]) :
    h.Goes code (d, line) (d.push (h.arithmetic.bit b), line + 4) := by
  have hset : h.advance code d line = some (d, line + if !d.flags n then 2 else 1) :=
    advance_of_attempt (hcode 0 _ rfl) rfl rfl
  have hclear : ∀ levels : Levels Datum, h.advance code (d.holding levels) (line + 2) =
      some (d.holding levels, line + 2 + if d.flags n then 2 else 1) :=
    fun _ => advance_of_attempt (hcode 2 _ rfl) rfl rfl
  rw [hflag] at hset hclear
  refine .trans (.advance hset) ?_
  cases b with
  | true =>
    -- 1 is entered, and 0 is skipped
    exact .trans (.perform (hcode 1 _ rfl) rfl rfl) (.advance (hclear _))
  | false =>
    -- 1 is skipped, and 0 is entered
    exact .trans (.advance (hclear d.levels)) (.perform (hcode 3 _ rfl) rfl rfl)

/-- The flag takes the place of Y and X. The other two levels come down, and X goes to T. -/
theorem performs_flagValue (d : Device) :
    h.Performs .flagValue d (d.holding
      (d.levels.rollDown.rollDown.push (h.arithmetic.bit (d.flags scratchFlag)))) := by
  have hdown : h.Goes (code .flagValue) (d, 0) (d.holding d.levels.rollDown.rollDown, 2) :=
    .advanceFor (n := 2) rfl
  have hcode : ([.op .rollDown, .op .rollDown] : List Instr) ++
      [onFlag .isSet scratchFlag, .int 1,
        onFlag .isClear scratchFlag, .int 0] <+: code .flagValue :=
    ⟨[.op .returns], rfl⟩
  exact performs_of_goes (hdown.trans (goes_flagBit rfl (codeAt_of_append hcode))) rfl

/-- A comparison leaves its outcome in the place of Y and X, and in the scratch flag. -/
theorem performs_comparison {operator : CompareOp} (hroutine : routine.comparison? = some operator)
    (hcompare : h.arithmetic.compare operator d.levels.y d.levels.x = some b) :
    h.Performs routine d ((d.flagged scratchFlag b).holding
      (d.levels.rollDown.rollDown.push (h.arithmetic.bit b))) := by
  obtain ⟨test, hcode, hcontrol, hreturns, hholds⟩ : ∃ test : Op,
      routine.code = comparisonBody test ∧ test.isControl = true ∧ test ≠ .returns ∧
        d.holds h test = some b := by
    cases routine <;> cases hroutine <;> exact ⟨_, rfl, rfl, nofun, hcompare⟩
  have hflag : (d.flagged scratchFlag b).flags scratchFlag = b :=
    flags_flagged_self _ _ _
  have hvalue := performs_flagValue (h := h) (d.flagged scratchFlag b)
  have htest : [onFlag .clear scratchFlag, .op test,
      onFlag .set scratchFlag] <+: routine.code :=
    ⟨[call .flagValue, .op .returns], hcode.symm⟩
  have hgoes := goes_flagTest (transfers_test hcontrol hreturns) (codeAt_zero htest)
    (perform_test_flagged hcontrol hholds _ _)
  have hcall : h.Reaches routine.code (_, 3) (_, 4) :=
    .call (show InstrAt routine.code 3 _ from hcode ▸ rfl) hvalue
  exact performs_of_reaches (hgoes.reaches.trans hcall) (show InstrAt _ 4 _ from hcode ▸ rfl)

/-- What a test says takes the place of X, and stays in the flag that the routine uses. -/
theorem performs_testBody
    (hcode : routine.code = [onFlag .clear n, test, onFlag .set n, .op .rollDown, onFlag .isSet n,
      .int 1, onFlag .isClear n, .int 0, .op .returns])
    (htransfers : test.transfers = false)
    (htest : (d.flagged n false).perform h test = some (d.flagged n false, !b)) :
    h.Performs routine d ((d.flagged n b).holding (d.levels.replace (h.arithmetic.bit b))) := by
  have hflag : ((d.flagged n b).holding d.levels.rollDown).flags n = b := by
    rw [flags_holding, flags_flagged_self]
  have htests : [onFlag .clear n, test, onFlag .set n] <+: routine.code := by
    rw [hcode]
    exact ⟨_, rfl⟩
  have hbit : [onFlag .clear n, test, onFlag .set n, .op .rollDown] ++
      [onFlag .isSet n, .int 1, onFlag .isClear n, .int 0] <+: routine.code :=
    ⟨[.op .returns], hcode.symm⟩
  have hdown :
      h.Goes routine.code (d.flagged n b, 3) ((d.flagged n b).holding d.levels.rollDown, 4) :=
    .perform (show InstrAt routine.code 3 (.op .rollDown) from hcode ▸ rfl) rfl rfl
  exact performs_of_goes ((goes_flagTest htransfers (codeAt_zero htests) htest).trans
    (hdown.trans (goes_flagBit hflag (codeAt_of_append hbit))))
    (show InstrAt _ 8 _ from hcode ▸ rfl)

theorem performs_truthBody {test : Op}
    (hcode : routine.code = truthBody test) (hcontrol : test.isControl = true)
    (hreturns : test ≠ .returns) (hholds : d.holds h test = some b) :
    h.Performs routine d ((d.flagged scratchFlag b).holding
      (d.levels.replace (h.arithmetic.bit b))) :=
  performs_testBody hcode (transfers_test hcontrol hreturns)
    (perform_test_flagged hcontrol hholds _ _)

theorem performs_truth (htruth : h.arithmetic.truth d.levels.x = some b) :
    h.Performs .truth d ((d.flagged scratchFlag b).holding
      (d.levels.replace (h.arithmetic.bit b))) :=
  performs_truthBody rfl rfl nofun htruth

theorem performs_negation (hzero : h.arithmetic.isZero d.levels.x = some b) :
    h.Performs .negation d ((d.flagged scratchFlag b).holding
      (d.levels.replace (h.arithmetic.bit b))) :=
  performs_truthBody rfl rfl nofun hzero

theorem performs_truthPair {b' : Bool} (htruth : h.arithmetic.truth d.levels.x = some b)
    (htruth' : h.arithmetic.truth d.levels.y = some b') :
    h.Performs .truthPair d ((d.flagged scratchFlag b').holding
      ⟨h.arithmetic.bit b, h.arithmetic.bit b', d.levels.z, d.levels.t⟩) := by
  have hswap : h.Goes (code .truthPair) ((d.flagged scratchFlag b).holding
      (d.levels.replace (h.arithmetic.bit b)), 1) ((d.flagged scratchFlag b).holding
        ⟨d.levels.y, h.arithmetic.bit b, d.levels.z, d.levels.t⟩, 2) := .advance rfl
  have hsecond : h.Performs .truth ((d.flagged scratchFlag b).holding
      ⟨d.levels.y, h.arithmetic.bit b, d.levels.z, d.levels.t⟩)
      (((d.flagged scratchFlag b).flagged scratchFlag b').holding
        ⟨h.arithmetic.bit b', h.arithmetic.bit b, d.levels.z, d.levels.t⟩) := performs_truth htruth'
  have hback : h.Goes (code .truthPair) ((d.flagged scratchFlag b').holding
      ⟨h.arithmetic.bit b', h.arithmetic.bit b, d.levels.z, d.levels.t⟩, 3)
      ((d.flagged scratchFlag b').holding
        ⟨h.arithmetic.bit b, h.arithmetic.bit b', d.levels.z, d.levels.t⟩, 4) := .advance rfl
  rw [flagged_flagged] at hsecond
  -- X first; then Y is swapped into its place and back
  refine performs_of_reaches (.trans (.call rfl (performs_truth htruth)) (hswap.reaches.trans ?_))
    (show InstrAt _ 4 _ from rfl)
  exact .trans (.call rfl hsecond) hback.reaches

/-! ### Code that works on the stack -/

/-- Code does to the stack what `effect` says, where the registers are `registers`. It keeps
everything else but the scratch flag. -/
def Acts (h : Hardware) (registers : Register → Option Datum) (code : List Instr)
    (effect : Levels Datum → Option (Levels Datum)) : Prop :=
  ∀ (program : List Instr) (line : Nat) (d : Device) (levels : Levels Datum) (callers : List Frame),
    CodeAt program line code → d.registers = registers → effect d.levels = some levels →
      ∃ b, h.Path (Between program callers line (line + code.length))
        ⟨d, ⟨program, line⟩ :: callers⟩
        ⟨(d.flagged Reserved.scratchFlag b).holding levels,
          ⟨program, line + code.length⟩ :: callers⟩

namespace Acts

variable {registers : Register → Option Datum}
  {effect effect' : Levels Datum → Option (Levels Datum)} {instr : Instr}

theorem append (hcode : h.Acts registers code effect) (hcode' : h.Acts registers code' effect') :
    h.Acts registers (code ++ code') fun levels => (effect levels).bind effect' := by
  intro program line d levels callers hat hregisters heffect
  obtain ⟨levels₁, heffect₁, heffect⟩ := Option.bind_eq_some_iff.mp heffect
  obtain ⟨hat, hat'⟩ := codeAt_append.mp hat
  obtain ⟨b, hfirst⟩ := hcode program line d levels₁ callers hat hregisters heffect₁
  obtain ⟨b', hsecond⟩ := hcode' program _ ((d.flagged scratchFlag b).holding levels₁) levels
    callers hat' hregisters heffect
  rw [flagged_holding, flagged_flagged] at hsecond
  refine ⟨b', ?_⟩
  rw [List.length_append, ← Nat.add_assoc]
  exact Between.path_trans hfirst hsecond (Nat.le_add_right _ _) (Nat.le_add_right _ _)

/-- A line that changes the stack only. -/
theorem of_advance
    (hadvance : ∀ (program : List Instr) (line : Nat) (d : Device) (levels : Levels Datum),
      InstrAt program line instr → d.registers = registers → effect d.levels = some levels →
        h.advance program d line = some (d.holding levels, line + 1)) :
    h.Acts registers [instr] effect := by
  intro program line d levels callers hat hregisters heffect
  refine ⟨d.flags scratchFlag, ?_⟩
  rw [flagged_self]
  exact between_of_advance (hadvance program line d levels hat.head hregisters heffect)

/-- An instruction that changes the stack only. -/
theorem of_perform (htransfers : instr.transfers = false)
    (hperform : ∀ (d : Device) (levels : Levels Datum), d.registers = registers →
      effect d.levels = some levels → d.perform h instr = some (d.holding levels, false)) :
    h.Acts registers [instr] effect := by
  refine of_advance fun program line d levels hinstr hregisters heffect => ?_
  have hattempt : d.attempt h instr = some (d.holding levels, false) := by
    rw [attempt, hperform d levels hregisters heffect]
  rw [advance_of_attempt hinstr htransfers hattempt]
  rfl

/-- A call of a routine that changes the stack and the scratch flag only. -/
theorem of_call {routine : Routine}
    (hperforms : ∀ (d : Device) (levels : Levels Datum), effect d.levels = some levels →
      ∃ b, h.Performs routine d ((d.flagged scratchFlag b).holding levels)) :
    h.Acts registers [call routine] effect := by
  intro program line d levels callers hat _ heffect
  obtain ⟨b, hperforms⟩ := hperforms d levels heffect
  exact ⟨b, between_of_call hat.head hperforms⟩

end Acts

/-- The lines of scalar code work on the stack. -/
theorem effects {registers : Register → Option Datum} :
    Effects h.arithmetic (h.Acts registers) where
  nil := by
    intro program line d levels callers _ _ heffect
    cases heffect
    refine ⟨d.flags scratchFlag, ?_⟩
    rw [flagged_self]
    exact .refl
  append := .append
  int n := .of_perform rfl fun _ _ _ heffect => by
    cases heffect
    rfl
  decimal spelling := .of_perform rfl fun _ _ _ heffect => by
    cases heffect
    rfl
  unary {o} ho := by
    refine .of_perform (by cases o <;> cases ho <;> rfl) fun d levels _ heffect => ?_
    have hoperate : d.perform h (.op o) =
        ((h.arithmetic.unary o d.levels.x).map d.levels.replace).map
          fun levels => (d.holding levels, false) := by
      rw [Option.map_map]
      cases o <;> cases ho <;> exact Option.map_map ..
    rw [hoperate, heffect]
    rfl
  binary {o} ho := by
    refine .of_perform (by cases o <;> cases ho <;> rfl) fun d levels _ heffect => ?_
    have hoperate : d.perform h (.op o) =
        ((h.arithmetic.binary o d.levels.y d.levels.x).map d.levels.combine).map
          fun levels => (d.holding levels, false) := by
      rw [Option.map_map]
      cases o <;> cases ho <;> exact Option.map_map ..
    rw [hoperate, heffect]
    rfl
  comparison hroutine := .of_call fun _ _ heffect => by
    obtain ⟨b, hcompare, rfl⟩ := Option.map_eq_some_iff.mp heffect
    exact ⟨b, performs_comparison hroutine hcompare⟩
  truth := .of_call fun _ _ heffect => by
    obtain ⟨b, htruth, rfl⟩ := Option.map_eq_some_iff.mp heffect
    exact ⟨b, performs_truth htruth⟩
  negation := .of_call fun _ _ heffect => by
    obtain ⟨b, hzero, rfl⟩ := Option.map_eq_some_iff.mp heffect
    exact ⟨b, performs_negation hzero⟩
  truthPair := .of_call fun _ _ heffect => by
    obtain ⟨b, htruth, heffect⟩ := Option.bind_eq_some_iff.mp heffect
    obtain ⟨b', htruth', rfl⟩ := Option.map_eq_some_iff.mp heffect
    exact ⟨b', performs_truthPair htruth htruth'⟩

section Variables

variable {registers : Register → Option Datum} {register : Register} {datum value : Datum}

theorem acts_recallValue (hdatum : registers register = some datum) :
    h.Acts registers [.recallValue register] fun levels => some (levels.push datum) := by
  refine .of_advance fun program line d levels hinstr hregisters heffect => ?_
  cases heffect
  exact advance_recall hinstr (hregisters ▸ hdatum)

/-- The register of a loop counter also holds its bound. -/
theorem acts_recallCounter (hdatum : registers register = some datum)
    (hwhole : h.arithmetic.unary .integerPart datum = some value) :
    h.Acts registers [.recallValue register, .op .integerPart] fun levels =>
      some (levels.push value) := by
  refine Effects.congr (.append (acts_recallValue hdatum) (effects.unary rfl)) fun levels => ?_
  show (h.arithmetic.unary .integerPart datum).map _ = _
  rw [hwhole]
  rfl

/-- The lines that recall a variable enter its value. -/
theorem acts_recallCode {scopes : Scopes} {name : String}
    (hvalue : (if scopes.isRangeIndex name then
      (registers register).bind (h.arithmetic.unary .integerPart) else registers register) =
        some value) :
    h.Acts registers (scopes.recallCode name register) fun levels => some (levels.push value) := by
  rw [Scopes.recallCode]
  cases hindex : scopes.isRangeIndex name with
  | true =>
    rw [hindex] at hvalue
    obtain ⟨datum, hdatum, hwhole⟩ := Option.bind_eq_some_iff.mp hvalue
    exact acts_recallCounter hdatum hwhole
  | false =>
    rw [hindex] at hvalue
    exact acts_recallValue hvalue

end Variables

end Hardware

end Keystroke
