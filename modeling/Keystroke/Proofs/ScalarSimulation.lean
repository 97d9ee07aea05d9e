import Keystroke.Proofs.ScalarCode

/-!
# Running the code of scalar statements

The code of scalar statements is laid out in a program with jumps and labels. Wherever it stands,
the machine runs it as the statements mean: it comes to where the statements end, with the registers
that they leave, and it comes to no return unless the statements come to an end.
-/

namespace Keystroke

open Script (Expr Stmt)
open Arithmetic (Store)
open Machine (Steps EndsIn step stepAt)

/-! ### Lines that control where a program goes on -/

section

variable (program : List Instr)

/-- A line is a jump to another line. -/
def Goes (line target : Nat) : Prop :=
  ∃ n, JumpAt program line n ∧ jumpTarget? program line n = some target

def Labelled (line : Nat) : Prop :=
  ∃ n, LabelAt program line n

/-- The next line after a label, if there is one. -/
inductive Passes : Nat → Nat → Prop where
  | refl {line : Nat} : Passes line line
  | label {line : Nat} (h : Labelled program line) : Passes line (line + 1)

end

/-! ### Code with control flow -/

/-- Where the loop around some statements is: its first line, to which a `continue` goes, and the
line to which a `break` goes. -/
structure Targets where
  entry : Nat
  exit : Nat

section

variable (program : List Instr) (place : String → Register) (vars : List String)

/-- The code of an expression stands from one line on, up to an instruction for its value. -/
structure ExprAt (o : Op) (e : Expr) (start line : Nat) : Prop where
  scalar : e.isScalar vars = true
  code : CodeAt program start (e.code place)
  instr : InstrAt program line (.op o)
  line_eq : line = start + (e.code place).length

/-- The code of a condition, from one line on, leads to one of two branches. After the test come the
jumps to the branches, and then the label of the first. -/
inductive BranchTest (test : Expr) : Nat → Nat → Nat → Prop where
  | intro {start line other first : Nat}
      (hat : ExprAt program place vars .isNonzero test start line)
      (hthen : Goes program (line + 1) (line + 3)) (hlabel : Labelled program (line + 3))
      (helse : Goes program (line + 2) other) (hother : Passes program other first) :
      BranchTest test start (line + 4) first

/-- The code of the condition of a loop leads into its body or out of the loop. A literal is not
tested. -/
inductive LoopTest (test : Expr) : Nat → Nat → Nat → Prop where
  | always {start exit : Nat} (htrue : test.isConstantTrue = true) : LoopTest test start start exit
  | tested {start line exit : Nat} (hat : ExprAt program place vars .isZero test start line)
      (hexit : Goes program (line + 1) exit) : LoopTest test start (line + 2) exit

/-- The code of statements stands from the line `start` to the line `stop`. The registers of
variables are given by `place`. -/
inductive Laid : Option Targets → List Stmt → Nat → Nat → Prop where
  | nil {loop : Option Targets} {line : Nat} : Laid loop [] line line
  | simple {loop : Option Targets} {s : Stmt} {rest : List Stmt} {code : List Instr}
      {start stop : Nat} (hscalar : s.isScalar vars = true) (hcode : s.code? place = some code)
      (hat : CodeAt program start code) (hrest : Laid loop rest (start + code.length) stop) :
      Laid loop (s :: rest) start stop
  | returns {loop : Option Targets} {offset : Position} {rest : List Stmt} {start stop : Nat}
      (hat : InstrAt program start (.op .returns)) (hrest : Laid loop rest (start + 1) stop) :
      Laid loop (.returns offset none :: rest) start stop
  | returnsValue {loop : Option Targets} {offset : Position} {e : Expr} {rest : List Stmt}
      {start line stop : Nat} (hat : ExprAt program place vars .returns e start line)
      (hrest : Laid loop rest (line + 1) stop) :
      Laid loop (.returns offset (some e) :: rest) start stop
  | breaks {targets : Targets} {offset : Position} {rest : List Stmt} {start stop : Nat}
      (hgoes : Goes program start targets.exit)
      (hrest : Laid (some targets) rest (start + 1) stop) :
      Laid (some targets) (.breaks offset :: rest) start stop
  | continues {targets : Targets} {offset : Position} {rest : List Stmt} {start stop : Nat}
      (hgoes : Goes program start targets.entry)
      (hrest : Laid (some targets) rest (start + 1) stop) :
      Laid (some targets) (.continues offset :: rest) start stop
  /-- The first branch is followed by a jump over the second, if there is one. -/
  | ifElse {loop : Option Targets} {offset : Position} {test : Expr} {body orElse rest : List Stmt}
      {start first middle second finish stop : Nat}
      (htest : BranchTest program place vars test start first second)
      (hbody : Laid loop body first middle) (hskip : middle = finish ∨ Goes program middle finish)
      (horElse : Laid loop orElse second finish) (hfinish : Labelled program finish)
      (hrest : Laid loop rest (finish + 1) stop) :
      Laid loop (.ifElse offset test body orElse :: rest) start stop
  /-- The way out has a label only if something jumps there. -/
  | whileLoop {loop : Option Targets} {offset : Position} {test : Expr} {body rest : List Stmt}
      {start first finish after stop : Nat} (hentry : Labelled program start)
      (htest : LoopTest program place vars test (start + 1) first (finish + 1))
      (hbody : Laid (some ⟨start, finish + 1⟩) body first finish)
      (hback : Goes program finish start) (hout : Passes program (finish + 1) after)
      (hrest : Laid loop rest after stop) :
      Laid loop (.whileLoop offset test body :: rest) start stop

end

/-! ### Steps -/

section

variable {V : Type} {A : Arithmetic V} {program : List Instr} {place : String → Register}
  {vars : List String} {line target stop start : Nat} {store : Store V} {st : List V}
  {registers : Register → V} {loop : Option Targets} {o : Outcome V} {env : Env V}
  {statements : List Stmt}

theorem Goes.step (h : Goes program line target) :
    step A program ⟨store, line⟩ = some ⟨store, target⟩ := by
  obtain ⟨n, hjump, htarget⟩ := h
  rw [Machine.step_at hjump]
  show (jumpTarget? program line n).map _ = _
  rw [htarget]
  rfl

theorem Labelled.step (h : Labelled program line) :
    step A program ⟨store, line⟩ = some ⟨store, line + 1⟩ := by
  obtain ⟨n, hlabel⟩ := h
  rw [Machine.step_at hlabel]
  rfl

theorem Passes.steps (h : Passes program line target) (store : Store V) :
    ∃ n, Steps A program n ⟨store, line⟩ ⟨store, target⟩ := by
  cases h with
  | refl => exact ⟨0, .refl _⟩
  | label h => exact ⟨1, .single h.step⟩

theorem Goes.steps_of_or (h : line = target ∨ Goes program line target) (store : Store V) :
    ∃ n, Steps A program n ⟨store, line⟩ ⟨store, target⟩ := by
  rcases h with rfl | h
  · exact ⟨0, .refl _⟩
  · exact ⟨1, .single h.step⟩

namespace ExprAt

variable {o : Op} {e test : Expr} {start n : Nat} {b : Bool} {last : Machine V}

/-- The machine comes to an instruction with the value of the expression before it. -/
theorem steps_value (h : ExprAt program place vars o e start line) {v : V}
    (hvalue : e.value A (registers ∘ place) = some v) :
    Steps A program (e.code place).length ⟨⟨st, registers⟩, start⟩
      ⟨⟨v :: st, registers⟩, line⟩ := by
  have hexec : A.exec (e.code place) ⟨st, registers⟩ = some ⟨v :: st, registers⟩ := by
    rw [Expr.exec_code h.scalar, hvalue]
    rfl
  rw [h.line_eq]
  exact Machine.steps_of_exec h.code hexec

/-- The code of a condition that does not hold is followed by the second line after the test. -/
theorem steps_nonzero (h : ExprAt program place vars .isNonzero test start line) (st : List V)
    (htruth : test.truth A (registers ∘ place) = some b) :
    ∃ n st', Steps A program n ⟨⟨st, registers⟩, start⟩
      ⟨⟨st', registers⟩, line + if b then 1 else 2⟩ := by
  obtain ⟨v, hvalue, hb⟩ := Option.bind_eq_some_iff.mp htruth
  have hstep : step A program ⟨⟨v :: st, registers⟩, line⟩ =
      some ⟨⟨v :: st, registers⟩, line + if b then 1 else 2⟩ := by
    rw [Machine.step_at h.instr]
    show (A.truth v).map _ = _
    rw [hb]
    rfl
  exact ⟨_, _, (h.steps_value hvalue).trans (.single hstep)⟩

/-- The test for zero goes the other way round. -/
theorem steps_zero (h : ExprAt program place vars .isZero test start line) (st : List V)
    (htruth : test.truth A (registers ∘ place) = some b) :
    ∃ n st', Steps A program n ⟨⟨st, registers⟩, start⟩
      ⟨⟨st', registers⟩, line + if b then 2 else 1⟩ := by
  obtain ⟨v, hvalue, hb⟩ := Option.bind_eq_some_iff.mp htruth
  obtain ⟨zero, hzero, hnot⟩ := Option.map_eq_some_iff.mp hb
  have hstep : step A program ⟨⟨v :: st, registers⟩, line⟩ =
      some ⟨⟨v :: st, registers⟩, line + if b then 2 else 1⟩ := by
    rw [Machine.step_at h.instr]
    show (A.isZero v).map _ = _
    rw [hzero, ← hnot]
    cases zero <;> rfl
  exact ⟨_, _, (h.steps_value hvalue).trans (.single hstep)⟩

theorem exists_value (h : ExprAt program place vars o e start line)
    (hends : EndsIn A program n ⟨⟨st, registers⟩, start⟩ last) :
    ∃ v k, e.value A (registers ∘ place) = some v ∧ k ≤ n ∧
      EndsIn A program k ⟨⟨v :: st, registers⟩, line⟩ last := by
  obtain ⟨store', k, hexec, hk, hends⟩ := hends.exec h.code e.goesOn_code
  rw [Expr.exec_code h.scalar] at hexec
  obtain ⟨v, hvalue, rfl⟩ := Option.map_eq_some_iff.mp hexec
  rw [← h.line_eq] at hends
  exact ⟨v, k, hvalue, by omega, hends⟩

/-- A run to a return can tell whether a condition holds. -/
theorem exists_truth (h : ExprAt program place vars o test start line)
    (ho : o = .isZero ∨ o = .isNonzero) (hends : EndsIn A program n ⟨⟨st, registers⟩, start⟩ last) :
    ∃ b, test.truth A (registers ∘ place) = some b := by
  obtain ⟨v, k, hvalue, -, hends⟩ := h.exists_value hends
  have hnot : ¬ InstrAt program line (.op .returns) := by
    intro hreturns
    have heq := hreturns.unique h.instr
    rcases ho with rfl | rfl <;> cases heq
  obtain ⟨next, hstep⟩ := hends.exists_step hnot
  rw [Machine.step_at h.instr] at hstep
  have htruth : ∃ b, A.truth v = some b := by
    rcases ho with rfl | rfl
    · obtain ⟨zero, hzero, -⟩ := Option.map_eq_some_iff.mp hstep
      have hzero : A.isZero v = some zero := hzero
      exact ⟨!zero, by rw [Arithmetic.truth, hzero]; rfl⟩
    · obtain ⟨b, hb, -⟩ := Option.map_eq_some_iff.mp hstep
      exact ⟨b, hb⟩
  obtain ⟨b, hb⟩ := htruth
  exact ⟨b, by rw [Expr.truth, hvalue]; exact hb⟩

end ExprAt

/-! ### Conditions -/

namespace BranchTest

variable {test : Expr} {start first second : Nat} {b : Bool}

/-- The machine comes from a condition to the branch that it decides for. -/
theorem steps (h : BranchTest program place vars test start first second) (st : List V)
    (htruth : test.truth A (registers ∘ place) = some b) :
    ∃ n st', Steps A program n ⟨⟨st, registers⟩, start⟩
      ⟨⟨st', registers⟩, if b then first else second⟩ := by
  obtain ⟨hat, hthen, hlabel, helse, hother⟩ := h
  obtain ⟨n, st', hsteps⟩ := hat.steps_nonzero st htruth
  cases b with
  | true =>
    exact ⟨_, st', hsteps.trans ((Steps.single hthen.step).trans (.single hlabel.step))⟩
  | false =>
    obtain ⟨m, hlead⟩ := hother.steps (A := A) ⟨st', registers⟩
    exact ⟨_, st', hsteps.trans ((Steps.single helse.step).trans hlead)⟩

theorem exists_truth (h : BranchTest program place vars test start first second) {n : Nat}
    {last : Machine V} (hends : EndsIn A program n ⟨⟨st, registers⟩, start⟩ last) :
    ∃ b, test.truth A (registers ∘ place) = some b := by
  obtain ⟨hat, -, -, -, -⟩ := h
  exact hat.exists_truth (Or.inr rfl) hends

end BranchTest

namespace LoopTest

variable {test : Expr} {start first exit : Nat} {b : Bool}

/-- The machine comes from the condition of a loop into its body or out of the loop. -/
theorem steps (h : LoopTest program place vars test start first exit) (st : List V)
    (htruth : test.truth A (registers ∘ place) = some b) :
    ∃ n st', Steps A program n ⟨⟨st, registers⟩, start⟩
      ⟨⟨st', registers⟩, if b then first else exit⟩ := by
  cases h with
  | always htrue =>
    rw [Expr.truth_of_isConstantTrue A _ htrue] at htruth
    cases htruth
    exact ⟨0, st, .refl _⟩
  | tested hat hexit =>
    obtain ⟨n, st', hsteps⟩ := hat.steps_zero st htruth
    cases b with
    | true => exact ⟨n, st', hsteps⟩
    | false => exact ⟨_, st', hsteps.trans (.single hexit.step)⟩

theorem exists_truth (h : LoopTest program place vars test start first exit) {n : Nat}
    {last : Machine V} (hends : EndsIn A program n ⟨⟨st, registers⟩, start⟩ last) :
    ∃ b, test.truth A (registers ∘ place) = some b := by
  cases h with
  | always htrue => exact ⟨true, Expr.truth_of_isConstantTrue A _ htrue⟩
  | tested hat _ => exact hat.exists_truth (Or.inl rfl) hends

end LoopTest

/-! ### Statements that run to an end -/

/-- Where the machine is when statements have come to an end: behind their code, where a jump out of
the loop around them goes, or at a return, with the value in X. -/
def Lands (program : List Instr) (loop : Option Targets) (stop : Nat) :
    Outcome V → Machine V → Prop
  | .next, machine => machine.line = stop
  | .broke, machine => ∃ targets, loop = some targets ∧ machine.line = targets.exit
  | .continued, machine => ∃ targets, loop = some targets ∧ machine.line = targets.entry
  | .returned value, machine =>
    InstrAt program machine.line (.op .returns) ∧ ∀ v, value = some v → machine.stack.head? = some v

/-- The code of statements that are left is not run to its end. -/
theorem Lands.of_leaves {stop' : Nat} {machine : Machine V}
    (h : Lands program loop stop o machine) (hleaves : o ≠ .next) :
    Lands program loop stop' o machine := by
  cases o with
  | next => exact absurd rfl hleaves
  | _ => exact h

/-- The machine comes to a state with given values of the variables, and changes no other
register. -/
def Arrives (A : Arithmetic V) (program : List Instr) (place : String → Register)
    (vars : List String) (machine : Machine V) (env : Env V) (landing : Machine V → Prop) : Prop :=
  ∃ n next, Steps A program n machine next ∧ next.registers ∘ place = env ∧
    (∀ register ∉ vars.map place, next.registers register = machine.registers register) ∧
    landing next

namespace Arrives

variable {env env' : Env V} {landing landing' : Machine V → Prop} {n : Nat} {st' : List V}
  {machine : Machine V}

theorem here (h : landing ⟨⟨st, registers⟩, line⟩) :
    Arrives A program place vars ⟨⟨st, registers⟩, line⟩ (registers ∘ place) landing :=
  ⟨0, _, .refl _, rfl, fun _ _ => rfl, h⟩

/-- Steps that change no register may come first. -/
theorem after (hsteps : Steps A program n ⟨⟨st, registers⟩, line⟩ ⟨⟨st', registers⟩, target⟩)
    (h : Arrives A program place vars ⟨⟨st', registers⟩, target⟩ env landing) :
    Arrives A program place vars ⟨⟨st, registers⟩, line⟩ env landing := by
  obtain ⟨m, next, hnext, henv, hothers, hlanding⟩ := h
  exact ⟨n + m, next, hsteps.trans hnext, henv, hothers, hlanding⟩

theorem imp (h : Arrives A program place vars machine env landing)
    (himp : ∀ next, landing next → landing' next) :
    Arrives A program place vars machine env landing' := by
  obtain ⟨m, next, hsteps, henv, hothers, hlanding⟩ := h
  exact ⟨m, next, hsteps, henv, hothers, himp next hlanding⟩

/-- From where the machine comes to first it goes on. -/
theorem andThen (h : Arrives A program place vars machine env landing)
    (hnext : ∀ next, landing next → next.registers ∘ place = env →
      Arrives A program place vars next env' landing') :
    Arrives A program place vars machine env' landing' := by
  obtain ⟨m, next, hsteps, henv, hothers, hlanding⟩ := h
  obtain ⟨k, last, hsteps', henv', hothers', hlanding'⟩ := hnext next hlanding henv
  refine ⟨m + k, last, hsteps.trans hsteps', henv', fun register hregister => ?_, hlanding'⟩
  rw [hothers' register hregister, hothers register hregister]

end Arrives

/-- The machine runs the code of a statement without control flow. -/
theorem arrives_simple (hplace : Function.Injective place) {s : Stmt} {code : List Instr}
    (hscalar : s.isScalar vars = true) (hcode : s.code? place = some code)
    (hat : CodeAt program line code) (heffect : s.effect A (registers ∘ place) = some env) :
    Arrives A program place vars ⟨⟨st, registers⟩, line⟩ env (·.line = line + code.length) := by
  have hexec : (A.exec code ⟨st, registers⟩).map (·.registers ∘ place) = some env :=
    (Stmt.exec_code? hplace hscalar hcode).trans heffect
  obtain ⟨store', hexec, henv⟩ := Option.map_eq_some_iff.mp hexec
  refine ⟨code.length, ⟨store', line + code.length⟩, Machine.steps_of_exec hat hexec, henv, ?_, rfl⟩
  exact fun register hregister =>
    Arithmetic.registers_of_exec (Stmt.staysWithin_code? hscalar hcode) hexec hregister

theorem Runs.simulated (hplace : Function.Injective place) {env' : Env V}
    (h : Runs A statements env o env') :
    ∀ {loop : Option Targets} {start stop : Nat} {st : List V} {registers : Register → V},
      Laid program place vars loop statements start stop → registers ∘ place = env →
      Arrives A program place vars ⟨⟨st, registers⟩, start⟩ env' (Lands program loop stop o) := by
  induction h with
  | nil =>
    rintro loop start stop st registers hlaid rfl
    cases hlaid
    exact .here rfl
  | simple heffect _ ih =>
    rintro loop start stop st registers hlaid rfl
    cases hlaid with
    | simple hscalar hcode hat hrest =>
      refine (arrives_simple hplace hscalar hcode hat heffect).andThen ?_
      rintro ⟨⟨st', registers'⟩, line⟩ rfl henv
      exact ih hrest henv
    | _ => cases heffect
  | returns =>
    rintro loop start stop st registers hlaid rfl
    cases hlaid with
    | returns hat hrest => exact .here ⟨hat, fun v hv => nomatch hv⟩
    | simple _ hcode => cases hcode
  | returnsValue hvalue =>
    rintro loop start stop st registers hlaid rfl
    cases hlaid with
    | returnsValue hat hrest =>
      refine .after (hat.steps_value hvalue) (.here ⟨hat.instr, ?_⟩)
      rintro v' ⟨⟩
      rfl
    | simple _ hcode => cases hcode
  | breaks =>
    rintro loop start stop st registers hlaid rfl
    cases hlaid with
    | breaks hgoes _ => exact .after (.single hgoes.step) (.here ⟨_, rfl, rfl⟩)
    | simple _ hcode => cases hcode
  | continues =>
    rintro loop start stop st registers hlaid rfl
    cases hlaid with
    | continues hgoes _ => exact .after (.single hgoes.step) (.here ⟨_, rfl, rfl⟩)
    | simple _ hcode => cases hcode
  | @branch _ _ _ _ _ _ _ _ b _ htest _ _ ih ihrest =>
    rintro loop start stop st registers hlaid rfl
    cases hlaid with
    | simple _ hcode => cases hcode
    | @ifElse _ _ _ _ _ _ _ first middle second finish _ hbranch hbody hskip horElse
        hfinish hrest =>
      obtain ⟨n, st', hin⟩ := hbranch.steps st htest
      refine .after hin ?_
      cases b with
      | true =>
        refine (ih hbody rfl).andThen ?_
        rintro ⟨⟨st₁, registers₁⟩, line₁⟩ rfl henv
        obtain ⟨m, hskip⟩ := Goes.steps_of_or (A := A) hskip ⟨st₁, registers₁⟩
        exact .after (hskip.trans (.single hfinish.step)) (ihrest hrest henv)
      | false =>
        refine (ih horElse rfl).andThen ?_
        rintro ⟨⟨st₁, registers₁⟩, line₁⟩ rfl henv
        exact .after (.single hfinish.step) (ihrest hrest henv)
  | @branchLeaves _ _ _ _ _ _ _ b _ htest _ hleaves ih =>
    rintro loop start stop st registers hlaid rfl
    cases hlaid with
    | simple _ hcode => cases hcode
    | ifElse hbranch hbody _ horElse _ _ =>
      obtain ⟨n, st', hin⟩ := hbranch.steps st htest
      refine .after hin ?_
      cases b with
      | true => exact (ih hbody rfl).imp fun _ hlands => hlands.of_leaves hleaves
      | false => exact (ih horElse rfl).imp fun _ hlands => hlands.of_leaves hleaves
  | loopDone htest _ ih =>
    rintro loop start stop st registers hlaid rfl
    cases hlaid with
    | simple _ hcode => cases hcode
    | whileLoop hentry hloop _ _ hout hrest =>
      obtain ⟨n, st', hpast⟩ := hloop.steps st htest
      obtain ⟨m, hout⟩ := hout.steps (A := A) ⟨st', registers⟩
      exact .after ((Steps.single hentry.step).trans (hpast.trans hout)) (ih hrest rfl)
  | loopAgain htest _ hagain _ ihbody ih =>
    rintro loop start stop st registers hlaid rfl
    cases id hlaid with
    | simple _ hcode => cases hcode
    | whileLoop hentry hloop hbody hback _ _ =>
      obtain ⟨n, st', hin⟩ := hloop.steps st htest
      refine .after ((Steps.single hentry.step).trans hin) ((ihbody hbody rfl).andThen ?_)
      rintro ⟨⟨st₁, registers₁⟩, line₁⟩ hlands henv
      -- both ways lead back to where the loop starts
      rcases hagain with rfl | rfl
      · obtain rfl := hlands
        exact .after (.single hback.step) (ih hlaid henv)
      · obtain ⟨targets, htargets, rfl⟩ := hlands
        cases htargets
        exact ih hlaid henv
  | loopBroke htest _ _ ihbody ih =>
    rintro loop start stop st registers hlaid rfl
    cases hlaid with
    | simple _ hcode => cases hcode
    | whileLoop hentry hloop hbody _ hout hrest =>
      obtain ⟨n, st', hin⟩ := hloop.steps st htest
      refine .after ((Steps.single hentry.step).trans hin) ((ihbody hbody rfl).andThen ?_)
      rintro ⟨⟨st₁, registers₁⟩, line₁⟩ ⟨targets, htargets, rfl⟩ henv
      cases htargets
      obtain ⟨m, hout⟩ := hout.steps (A := A) ⟨st₁, registers₁⟩
      exact .after hout (ih hrest henv)
  | loopReturned htest _ ihbody =>
    rintro loop start stop st registers hlaid rfl
    cases hlaid with
    | simple _ hcode => cases hcode
    | whileLoop hentry hloop hbody _ _ _ =>
      obtain ⟨n, st', hin⟩ := hloop.steps st htest
      refine .after ((Steps.single hentry.step).trans hin) ?_
      exact Arrives.imp (ihbody hbody rfl) fun _ hlands => hlands

/-! ### Runs to a return -/

/-- A run to a return goes through the end of statements that run to an end. -/
theorem Laid.ends (hplace : Function.Injective place) {n : Nat} {last : Machine V}
    (h : Laid program place vars loop statements start stop)
    (hruns : Runs A statements (registers ∘ place) o env)
    (hends : EndsIn A program n ⟨⟨st, registers⟩, start⟩ last) :
    ∃ k st' registers' line, k ≤ n ∧ registers' ∘ place = env ∧
      Lands program loop stop o ⟨⟨st', registers'⟩, line⟩ ∧
      EndsIn A program k ⟨⟨st', registers'⟩, line⟩ last := by
  obtain ⟨m, ⟨⟨st', registers'⟩, line⟩, hsteps, henv, -, hlands⟩ := hruns.simulated hplace h rfl
  obtain ⟨k, hk, hends⟩ := hends.after hsteps
  exact ⟨k, st', registers', line, by omega, henv, hlands, hends⟩

/-- Statements run to an end if the machine comes to a return from their code. -/
theorem Laid.exists_runs (hplace : Function.Injective place) (bound : Nat) :
    ∀ {loop : Option Targets} {statements : List Stmt} {start stop : Nat},
      Laid program place vars loop statements start stop →
      ∀ {n : Nat} {st : List V} {registers : Register → V} {last : Machine V}, n ≤ bound →
        EndsIn A program n ⟨⟨st, registers⟩, start⟩ last →
        ∃ o env', Runs A statements (registers ∘ place) o env' := by
  -- the outer induction is for loops, whose further rounds take fewer steps
  induction bound using Nat.strong_induction_on with
  | _ bound ihbound =>
    intro loop statements start stop hlaid
    induction hlaid with
    | nil =>
      intro n st registers last _ _
      exact ⟨_, _, .nil⟩
    | simple hscalar hcode hat _ ih =>
      intro n st registers last hn hends
      have hgoesOn := fun instr hinstr =>
        Instr.goesOn_of_staysWithin (Stmt.staysWithin_code? hscalar hcode instr hinstr)
      obtain ⟨store', k, hexec, hk, hends⟩ := hends.exec hat hgoesOn
      have heffect : (A.exec _ ⟨st, registers⟩).map (·.registers ∘ place) = _ :=
        Stmt.exec_code? hplace hscalar hcode
      rw [hexec] at heffect
      obtain ⟨o, env', hruns⟩ := ih (by omega) hends
      exact ⟨o, env', .simple heffect.symm hruns⟩
    | returns =>
      intro n st registers last _ _
      exact ⟨_, _, .returns⟩
    | returnsValue hat =>
      intro n st registers last _ hends
      obtain ⟨v, -, hvalue, -, -⟩ := hat.exists_value hends
      exact ⟨_, _, .returnsValue hvalue⟩
    | breaks =>
      intro n st registers last _ _
      exact ⟨_, _, .breaks⟩
    | continues =>
      intro n st registers last _ _
      exact ⟨_, _, .continues⟩
    | @ifElse _ _ _ body orElse _ _ first middle second finish _ hbranch hbody hskip
        horElse hfinish _ ihbody ihorElse ihrest =>
      intro n st registers last hn hends
      obtain ⟨b, htest⟩ := hbranch.exists_truth hends
      obtain ⟨m, st', hin⟩ := hbranch.steps st htest
      obtain ⟨k, hk, hends⟩ := hends.after hin
      obtain ⟨o₁, env₁, hruns₁⟩ :
          ∃ o₁ env₁, Runs A (if b then body else orElse) (registers ∘ place) o₁ env₁ := by
        cases b with
        | true => exact ihbody (by omega) hends
        | false => exact ihorElse (by omega) hends
      by_cases hnext : o₁ = .next
      · subst hnext
        -- the end of either branch leads to the end of the condition
        obtain ⟨j, st₁, registers₁, hj, henv, hends⟩ : ∃ j st₁ registers₁, j ≤ k ∧
            registers₁ ∘ place = env₁ ∧ EndsIn A program j ⟨⟨st₁, registers₁⟩, finish⟩ last := by
          cases b with
          | true =>
            obtain ⟨j, st₁, registers₁, line, hj, henv, rfl, hends⟩ :=
              hbody.ends hplace hruns₁ hends
            obtain ⟨i, hskip⟩ := Goes.steps_of_or (A := A) hskip ⟨st₁, registers₁⟩
            obtain ⟨j', hj', hends⟩ := hends.after hskip
            exact ⟨j', st₁, registers₁, by omega, henv, hends⟩
          | false =>
            obtain ⟨j, st₁, registers₁, line, hj, henv, rfl, hends⟩ :=
              horElse.ends hplace hruns₁ hends
            exact ⟨j, st₁, registers₁, hj, henv, hends⟩
        obtain ⟨i, hi, hends⟩ := hends.after (.single hfinish.step)
        obtain ⟨o, env', hruns⟩ := ihrest (by omega) hends
        rw [henv] at hruns
        exact ⟨o, env', .branch htest hruns₁ hruns⟩
      · exact ⟨o₁, env₁, .branchLeaves htest hruns₁ hnext⟩
    | @whileLoop _ offset test body rest _ _ finish _ _ hentry hloop hbody hback hout hrest ihbody
        ihrest =>
      intro n st registers last hn hends
      obtain ⟨k, hk, hends⟩ := hends.after (.single hentry.step)
      obtain ⟨b, htest⟩ := hloop.exists_truth hends
      obtain ⟨m, st', hin⟩ := hloop.steps st htest
      obtain ⟨j, hj, hends⟩ := hends.after hin
      cases b with
      | false =>
        obtain ⟨i, hout⟩ := hout.steps (A := A) ⟨st', registers⟩
        obtain ⟨j', hj', hends⟩ := hends.after hout
        obtain ⟨o, env', hruns⟩ := ihrest (by omega) hends
        exact ⟨o, env', .loopDone htest hruns⟩
      | true =>
        obtain ⟨o₁, env₁, hruns₁⟩ := ihbody (by omega) hends
        obtain ⟨j', st₁, registers₁, line, hj', rfl, hlands, hends⟩ :=
          hbody.ends hplace hruns₁ hends
        have hlaid : Laid program place vars _ (.whileLoop offset test body :: rest) _ _ :=
          .whileLoop hentry hloop hbody hback hout hrest
        cases o₁ with
        | next =>
          have hline : line = finish := hlands
          rw [hline] at hends
          obtain ⟨i, hi, hends⟩ := hends.after (.single hback.step)
          obtain ⟨o, env', hruns⟩ := ihbound i (by omega) hlaid (Nat.le_refl i) hends
          exact ⟨o, env', .loopAgain htest hruns₁ (Or.inl rfl) hruns⟩
        | continued =>
          obtain ⟨targets, htargets, rfl⟩ := hlands
          cases htargets
          obtain ⟨o, env', hruns⟩ := ihbound j' (by omega) hlaid (Nat.le_refl j') hends
          exact ⟨o, env', .loopAgain htest hruns₁ (Or.inr rfl) hruns⟩
        | broke =>
          obtain ⟨targets, htargets, rfl⟩ := hlands
          cases htargets
          obtain ⟨i, hout⟩ := hout.steps (A := A) ⟨st₁, registers₁⟩
          obtain ⟨j'', hj'', hends⟩ := hends.after hout
          obtain ⟨o, env', hruns⟩ := ihrest (by omega) hends
          exact ⟨o, env', .loopBroke htest hruns₁ hruns⟩
        | returned value => exact ⟨_, _, .loopReturned htest hruns₁⟩

/-! ### The last line -/

theorem Goes.not_returns (h : Goes program line target) :
    ¬ InstrAt program line (.op .returns) := by
  intro hreturns
  obtain ⟨n, hjump, -⟩ := h
  cases hjump.unique hreturns

theorem Labelled.not_returns (h : Labelled program line) :
    ¬ InstrAt program line (.op .returns) := by
  intro hreturns
  obtain ⟨n, hlabel⟩ := h
  cases hlabel.unique hreturns

/-- The code of statements ends with a return only if one of them leaves the block. -/
theorem Laid.last_line (h : Laid program place vars loop statements start stop) :
    start = stop ∨ ¬ InstrAt program (stop - 1) (.op .returns) ∨
      ∃ s ∈ statements, s.leaves = true := by
  induction h with
  | nil => exact Or.inl rfl
  | @simple _ s rest code start stop hscalar hcode hat _ ih =>
    rcases ih with rfl | hlast | ⟨s', hmem, hleaves⟩
    · rcases List.eq_nil_or_concat' code with rfl | ⟨code, instr, rfl⟩
      · exact Or.inl rfl
      · refine Or.inr (Or.inl fun hreturns => ?_)
        have hinstr : InstrAt program (start + code.length) instr :=
          hat _ _ (instrAt_append_singleton.mpr (Or.inr ⟨rfl, rfl⟩))
        have hgoesOn := Instr.goesOn_of_staysWithin
          (Stmt.staysWithin_code? hscalar hcode instr (by simp))
        rw [List.length_append, List.length_singleton, ← Nat.add_assoc,
          Nat.add_sub_cancel] at hreturns
        rw [← hreturns.unique hinstr] at hgoesOn
        cases hgoesOn
    · exact Or.inr (Or.inl hlast)
    · exact Or.inr (Or.inr ⟨s', List.mem_cons_of_mem _ hmem, hleaves⟩)
  | returns | returnsValue | breaks | continues =>
    exact Or.inr (Or.inr ⟨_, List.mem_cons_self, rfl⟩)
  | ifElse _ _ _ _ hfinish _ _ _ ih =>
    rcases ih with rfl | hlast | ⟨s', hmem, hleaves⟩
    · exact Or.inr (Or.inl hfinish.not_returns)
    · exact Or.inr (Or.inl hlast)
    · exact Or.inr (Or.inr ⟨s', List.mem_cons_of_mem _ hmem, hleaves⟩)
  | whileLoop _ _ _ hback hout _ _ ih =>
    rcases ih with rfl | hlast | ⟨s', hmem, hleaves⟩
    · cases hout with
      | refl => exact Or.inr (Or.inl hback.not_returns)
      | label hlabel => exact Or.inr (Or.inl hlabel.not_returns)
    · exact Or.inr (Or.inl hlast)
    · exact Or.inr (Or.inr ⟨s', List.mem_cons_of_mem _ hmem, hleaves⟩)

end

end Keystroke
