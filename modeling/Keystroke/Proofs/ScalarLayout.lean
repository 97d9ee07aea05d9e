import Keystroke.Proofs.Lockstep
import Keystroke.Proofs.ScalarEmission

/-!
# Laying out scalar statements

The code that is written for scalar statements is laid out as `Laid` says. Its labels are those of a
program in which each number is placed once, and the program that runs may have others, as long as
its jumps go to the same lines.
-/

namespace Keystroke

variable {whole code : List Instr} {loops loops' : List Loop}

open Script (Expr Stmt)

/-! ### Programs with the same jumps -/

/-- One program has the lines of another, up to the numbers of labels, and its jumps go to where the
other one has the labels of its jumps. -/
structure Linked (whole program : List Instr) : Prop where
  plain : ∀ line instr, InstrAt whole line instr → instr.IsPlain → InstrAt program line instr
  label : ∀ line m, LabelAt whole line m → Labelled program line
  jump : ∀ line target m, JumpAt whole line m → LabelAt whole target m → Goes program line target

theorem Instr.isPlain_of_goesOn {instr : Instr} (h : instr.goesOn = true) : instr.IsPlain := by
  constructor
  · rintro n rfl
    cases h
  · rintro n rfl
    cases h

theorem Instr.isPlain_op (o : Op) : (Instr.op o).IsPlain := by
  constructor <;> rintro _ ⟨⟩

theorem Linked.codeAt {program : List Instr} {line : Nat} (h : Linked whole program)
    (hcode : CodeAt whole line code) (hplain : ∀ instr ∈ code, instr.IsPlain) :
    CodeAt program line code :=
  fun k instr hinstr =>
    h.plain (line + k) instr (hcode k instr hinstr) (hplain instr (List.mem_of_getElem? hinstr))

/-! ### Loops around statements -/

/-- A loop may come to need a way out, but keeps the labels that it has. -/
structure Loop.Extends (loop loop' : Loop) : Prop where
  entry : loop'.entry = loop.entry
  continues : loop'.continuesAtEntry = loop.continuesAtEntry
  exit : ∀ n, loop.exitLabel = some n → loop'.exitLabel = some n

theorem Loop.Extends.refl (loop : Loop) : loop.Extends loop :=
  ⟨rfl, rfl, fun _ => id⟩

theorem Loop.Extends.trans {loop loop₁ loop' : Loop} (h : loop.Extends loop₁)
    (h' : loop₁.Extends loop') : loop.Extends loop' where
  entry := h'.entry.trans h.entry
  continues := h'.continues.trans h.continues
  exit n hn := h'.exit n (h.exit n hn)

/-- Each loop keeps the labels that it has. -/
abbrev Loop.AllExtend : List Loop → List Loop → Prop :=
  List.Forall₂ Loop.Extends

theorem Loop.AllExtend.refl (loops : List Loop) : Loop.AllExtend loops loops :=
  List.forall₂_same.mpr fun loop _ => .refl loop

theorem Loop.AllExtend.trans {loops₁ : List Loop} (h : Loop.AllExtend loops loops₁)
    (h' : Loop.AllExtend loops₁ loops') : Loop.AllExtend loops loops' := by
  induction h generalizing loops' with
  | nil => exact h'
  | cons hloop _ ih =>
    cases h' with
    | cons hloop' hrest => exact .cons (hloop.trans hloop') (ih hrest)

/-- The innermost loop has its labels where the jumps out of it and back into it should go. -/
def Fits (whole : List Instr) (targets? : Option Targets) : List Loop → Prop
  | [] => True
  | loop :: _ => ∃ targets, targets? = some targets ∧ loop.continuesAtEntry = true ∧
    LabelAt whole targets.entry loop.entry ∧
    ∀ n, loop.exitLabel = some n → LabelAt whole targets.exit n

theorem Fits.of_extends {targets? : Option Targets} (h : Fits whole targets? loops')
    (hloops : Loop.AllExtend loops loops') :
    Fits whole targets? loops := by
  cases hloops with
  | nil => trivial
  | cons hloop _ =>
    obtain ⟨targets, htargets, hcontinues, hentry, hexit⟩ := h
    exact ⟨targets, htargets, hloop.continues ▸ hcontinues, hloop.entry ▸ hentry,
      fun n hn => hexit n (hloop.exit n hn)⟩

/-! ### States one after the other -/

/-- Code has been added between two states, perhaps with new variables and new ways out of loops. -/
structure Grows (vars : List String) (s s' : Emitter) : Prop where
  code : s.listing.instrs <+: s'.listing.instrs
  scalar : ∀ name ∈ vars, s'.scopes.IsScalar name
  kept : s.scopes.Extends s'.scopes
  loops : Loop.AllExtend s.loops s'.loops

namespace Grows

variable {vars : List String} {s s₁ s' : Emitter}

theorem trans (h : Grows vars s s₁) (h' : Grows vars s₁ s') : Grows vars s s' where
  code := h.code.trans h'.code
  scalar := h'.scalar
  kept name register hlookup := h'.kept name register (h.kept name register hlookup)
  loops := Loop.AllExtend.trans h.loops h'.loops

end Grows

theorem Emits.grows {vars : List String} {s s' : Emitter} (h : Emits code s s')
    (hscalar : ∀ name ∈ vars, s.scopes.IsScalar name) : Grows vars s s' where
  code := ⟨code, h.instrs.symm⟩
  scalar := h.scopes ▸ hscalar
  kept := by
    rw [h.scopes]
    exact fun _ _ => id
  loops := by
    rw [h.loops]
    exact .refl _

/-- What is known at a state about the programs that its listing grows into. -/
structure Seen (whole program : List Instr) (place : String → Register) (vars : List String)
    (targets? : Option Targets) (s : Emitter) : Prop where
  linked : Linked whole program
  code : s.listing.instrs <+: whole
  places : Places vars place s.scopes
  fits : Fits whole targets? s.loops

/-- The line at which the code that is written next will stand. -/
def Emitter.size (s : Emitter) : Nat :=
  s.listing.instrs.length

section

variable {whole program code : List Instr} {place : String → Register} {vars : List String}
  {targets? : Option Targets} {s s₁ s' : Emitter}

/-- What is known later was true before. -/
theorem Seen.of_grows (h : Seen whole program place vars targets? s') (hgrows : Grows vars s s')
    (hscalar : ∀ name ∈ vars, s.scopes.IsScalar name) :
    Seen whole program place vars targets? s where
  linked := h.linked
  code := hgrows.code.trans h.code
  places := h.places.of_extends hgrows.kept hscalar
  fits := h.fits.of_extends hgrows.loops

theorem codeAt_of_instrs (hinstrs : s'.listing.instrs = s.listing.instrs ++ code)
    (hwhole : s'.listing.instrs <+: whole) : CodeAt whole s.size code := by
  obtain ⟨rest, rfl⟩ := hwhole
  intro k instr hinstr
  rw [hinstrs]
  refine InstrAt.append (instrAt_append.mpr (Or.inr ⟨Nat.le_add_right _ _, ?_⟩)) rest
  rwa [Nat.add_sub_cancel_left]

theorem Emits.codeAt (h : Emits code s s') (hwhole : s'.listing.instrs <+: whole) :
    CodeAt whole s.size code :=
  codeAt_of_instrs h.instrs hwhole

theorem Emits.size_eq (h : Emits code s s') : s'.size = s.size + code.length :=
  h.length_eq

/-! ### Statements that have been laid out -/

/-- Between two states, the code of statements has been laid out. -/
structure Lays (vars : List String) (statements : List Stmt) (s s' : Emitter) : Prop where
  grows : Grows vars s s'
  laid : ∀ whole program place targets?, Seen whole program place vars targets? s' →
    ∀ rest stop, Laid program place vars targets? rest s'.size stop →
      Laid program place vars targets? (statements ++ rest) s.size stop

theorem Lays.nil (hscalar : ∀ name ∈ vars, s.scopes.IsScalar name) : Lays vars [] s s where
  grows := (Emits.refl s).grows hscalar
  laid _ _ _ _ _ _ _ hrest := hrest

/-- The code of statements ends where the code that is written next will stand. -/
theorem Lays.laid_size {statements : List Stmt} (h : Lays vars statements s s')
    (hseen : Seen whole program place vars targets? s') :
    Laid program place vars targets? statements s.size s'.size := by
  have hlaid := h.laid whole program place targets? hseen [] s'.size .nil
  rwa [List.append_nil] at hlaid

theorem Lays.append {first second : List Stmt} (h : Lays vars first s s₁)
    (h' : Lays vars second s₁ s') : Lays vars (first ++ second) s s' where
  grows := h.grows.trans h'.grows
  laid whole program place targets? hseen rest stop hrest := by
    rw [List.append_assoc]
    exact h.laid whole program place targets? (hseen.of_grows h'.grows h.grows.scalar) _ stop
      (h'.laid whole program place targets? hseen rest stop hrest)

variable {code : (String → Register) → List Instr}

theorem Assigns.grows (h : Assigns vars code s s') :
    Grows vars s s' where
  code := ⟨_, (h.instrs _ (.self h.scalar)).symm⟩
  scalar := h.scalar
  kept := h.kept
  loops := h.loops ▸ .refl _

theorem Assigns.size_eq (h : Assigns vars code s s')
    (hplaces : Places vars place s'.scopes) : s'.size = s.size + (code place).length := by
  rw [Emitter.size, h.instrs place hplaces, List.length_append]
  rfl

/-- A statement without control flow. -/
theorem Assigns.lays {statement : Stmt}
    (h : Assigns vars code s s') (hstatement : statement.isScalar vars = true)
    (hcode : ∀ place, statement.code? place = some (code place)) :
    Lays vars [statement] s s' where
  grows := h.grows
  laid whole program place targets? hseen rest stop hrest := by
    have hinstrs := h.instrs place hseen.places
    have hat := hseen.linked.codeAt (codeAt_of_instrs hinstrs hseen.code) fun instr hinstr =>
      Instr.isPlain_of_goesOn
        (Instr.goesOn_of_staysWithin (Stmt.staysWithin_code? hstatement (hcode place) instr hinstr))
    rw [h.size_eq hseen.places] at hrest
    exact .simple hstatement (hcode place) hat hrest

/-! ### Control flow -/

namespace Emit

variable {labels : FunctionLabels} {u : Unit} {n : Nat} {body : Emit Unit}

theorem emits_line {instr : Instr} (h : (line instr instr.kind).run s = .ok (u, s')) :
    Emits [instr] s s' := by
  cases h
  exact .of_emit s s.jumps

theorem emits_placeSkip (h : (placeSkip n).run s = .ok (u, s')) :
    Emits [.lbl (.number n)] s s' := by
  cases h
  exact .of_emit s _

variable {start : Position}

theorem emits_withJumps {step : LabelSupply → Except JumpPool (Nat × LabelSupply)}
    (h : (withJumps step start).run s = .ok (n, s')) : Emits [] s s' := by
  obtain ⟨jumps, -, rfl⟩ := run_withJumps.mp h
  exact ⟨(List.append_nil _).symm, rfl, rfl, rfl⟩

/-- The code between a condition and its first branch. -/
def branchCode (n m : Nat) : List Instr :=
  [.op .isNonzero, .gto n, .gto m, .lbl (.number n)]

/-- What a condition writes after its first branch: the label of the jump over that branch, with the
second branch behind it if there is one. -/
def Otherwise (m : Nat) (s s' : Emitter) : Option (Emit Unit) → Prop
  | none => Emits [.lbl (.number m)] s s'
  | some branch => ∃ u s₁ s₂ k, Emits [.gto k, .lbl (.number m)] s s₁ ∧
    branch.run s₁ = .ok (u, s₂) ∧ Emits [.lbl (.number k)] s₂ s'

/-- What a condition writes before and after its branches. -/
theorem run_ifElse {test : Emit Unit} {orElse : Option (Emit Unit)}
    (h : (ifElse test start body orElse).run s = .ok (u, s')) :
    ∃ u₁ u₂ s₁ s₂ s₃ n m, test.run s = .ok (u₁, s₁) ∧ Emits (branchCode n m) s₁ s₂ ∧
      body.run s₂ = .ok (u₂, s₃) ∧ Otherwise m s₃ s' orElse := by
  obtain ⟨u₁, s₁, htest, h⟩ := run_bind.mp h
  obtain ⟨n, t₁, hn, h⟩ := run_bind.mp h
  obtain ⟨m, t₂, hm, h⟩ := run_bind.mp h
  obtain ⟨_, t₃, htested, h⟩ := run_bind.mp h
  obtain ⟨_, t₄, hthen, h⟩ := run_bind.mp h
  obtain ⟨_, t₅, helse, h⟩ := run_bind.mp h
  obtain ⟨_, s₂, hlabel, h⟩ := run_bind.mp h
  obtain ⟨u₂, s₃, hbody, h⟩ := run_bind.mp h
  have hbranch : Emits (branchCode n m) s₁ s₂ :=
    (emits_withJumps hn).trans ((emits_withJumps hm).trans ((emits_line htested).trans
      ((emits_line hthen).trans ((emits_line helse).trans (emits_placeSkip hlabel)))))
  refine ⟨u₁, u₂, s₁, s₂, s₃, n, m, htest, hbranch, hbody, ?_⟩
  cases orElse with
  | none => exact emits_placeSkip h
  | some branch =>
    obtain ⟨k, t₆, hk, h⟩ := run_bind.mp h
    obtain ⟨_, t₇, hskip, h⟩ := run_bind.mp h
    obtain ⟨_, s₄, hlabel, h⟩ := run_bind.mp h
    obtain ⟨u₃, s₅, hbranch, hend⟩ := run_bind.mp h
    exact ⟨u₃, s₄, s₅, k, (emits_withJumps hk).trans ((emits_line hskip).trans
      (emits_placeSkip hlabel)), hbranch, emits_placeSkip hend⟩

/-- The condition of a loop is written, unless it is a literal. -/
inductive Tested (labels : FunctionLabels) (test : Expr) (s : Emitter) : Option Nat → Emitter → Prop
  | always (htrue : test.isConstantTrue = true) : Tested labels test s none s
  | tested {n : Nat} {u : Unit} {s₁ s₂ : Emitter} (htest : (expr labels test).run s = .ok (u, s₁))
      (hexit : Emits [.op .isZero, .gto n] s₁ s₂) : Tested labels test s (some n) s₂

/-- The code behind a loop, if something jumps there. -/
def exitCode (exitLabel : Option Nat) : List Instr :=
  exitLabel.toList.map fun n => .lbl (.number n)

/-- A label that is perhaps there. -/
theorem emits_placeSkip? {label : Option Nat} (hrun : (placeSkip? label).run s = .ok (u, s')) :
    Emits (exitCode label) s s' := by
  cases label with
  | none =>
    cases hrun
    exact .refl s
  | some n => exact emits_placeSkip hrun

theorem run_whileLoop {test : Expr} (h : (whileLoop labels start test body).run s = .ok (u, s')) :
    ∃ u₁ entry exitLabel s₁ s₂ s₃, Emits [.lbl (.number entry)] s s₁ ∧
      Tested labels test s₁ exitLabel s₂ ∧
      body.run { s₂ with
        loops := { entry, continuesAtEntry := true, exitLabel } :: s₂.loops } = .ok (u₁, s₃) ∧
      ∀ loop outer, s₃.loops = loop :: outer →
        Emits (.gto entry :: exitCode loop.exitLabel) { s₃ with loops := outer } s' := by
  obtain ⟨entry, t₁, hentry, h⟩ := run_bind.mp h
  obtain ⟨_, s₁, hplace, h⟩ := run_bind.mp h
  obtain ⟨exitLabel, s₂, htested, h⟩ : ∃ exitLabel s₂, Tested labels test s₁ exitLabel s₂ ∧
      (loopBody { entry, continuesAtEntry := true, exitLabel } body >>= fun loop =>
        jump entry >>= fun _ => placeSkip? loop.exitLabel).run s₂ = .ok (u, s') := by
    split at h
    · rename_i htrue
      exact ⟨none, s₁, .always htrue, h⟩
    · rw [bind_map_left] at h
      obtain ⟨n, s₂, htest, h⟩ := run_bind.mp h
      obtain ⟨_, t₃, hexpr, hleave⟩ := run_bind.mp htest
      obtain ⟨k, t₄, hk, hleave⟩ := run_bind.mp hleave
      obtain ⟨_, t₅, hzero, hleave⟩ := run_bind.mp hleave
      obtain ⟨_, t₆, hexit, hleave⟩ := run_bind.mp hleave
      cases hleave
      exact ⟨some n, s₂, .tested hexpr ((emits_withJumps hk).trans
        ((emits_line hzero).trans (emits_line hexit))), h⟩
  obtain ⟨loop', t₇, hloop, h⟩ := run_bind.mp h
  obtain ⟨_, t₈, hback, hout⟩ := run_bind.mp h
  unfold loopBody at hloop
  rw [run_modify_bind] at hloop
  obtain ⟨u₁, s₃, hbody, hpop⟩ := run_bind.mp hloop
  refine ⟨u₁, entry, exitLabel, s₁, s₂, s₃,
    (emits_withJumps hentry).trans (emits_line hplace), htested, hbody, fun loop outer hloops => ?_⟩
  rw [run_get_bind, hloops] at hpop
  cases hpop
  exact (emits_line hback).trans (emits_placeSkip? hout)

/-- The innermost loop has perhaps been given a label. -/
structure SetsLoop (loop loop' : Loop) (outer : List Loop) (s s' : Emitter) : Prop where
  before : s.loops = loop :: outer
  after : s'.loops = loop' :: outer
  loop_extends : loop.Extends loop'
  listing : s'.listing = s.listing
  scopes : s'.scopes = s.scopes

namespace SetsLoop

variable {loop loop' : Loop} {outer : List Loop}

theorem grows (h : SetsLoop loop loop' outer s s')
    (hscalar : ∀ name ∈ vars, s.scopes.IsScalar name) : Grows vars s s' where
  code := h.listing ▸ List.prefix_rfl
  scalar := h.scopes ▸ hscalar
  kept := by
    rw [h.scopes]
    exact fun _ _ => id
  loops := by
    rw [h.before, h.after]
    exact .cons h.loop_extends (Loop.AllExtend.refl outer)

theorem size_eq (h : SetsLoop loop loop' outer s s') : s'.size = s.size := by
  rw [Emitter.size, h.listing, Emitter.size]

/-- A jump forward goes to the label that the loop has, or to one that it is given. -/
theorem of_jumpForward {start : Position} {label : Option Nat} {record : Nat → Loop}
    (h : s.loops = loop :: outer) (hrun : (jumpForward start label record).run s = .ok (u, s'))
    (hloop : ∀ n, label = none → loop.Extends (record n)) :
    ∃ n loop' s₁, SetsLoop loop loop' outer s s₁ ∧ Emits [.gto n] s₁ s' ∧
      (loop' = loop ∧ label = some n ∨ loop' = record n) := by
  cases label with
  | some n => exact ⟨n, loop, s, ⟨h, h, .refl loop, rfl, rfl⟩, emits_line hrun, .inl ⟨rfl, rfl⟩⟩
  | none =>
    obtain ⟨n, s₁, hn, hrun⟩ := run_bind.mp hrun
    obtain ⟨jumps, -, rfl⟩ := run_withJumps.mp hn
    have hset : SetsLoop loop (record n) outer s
        { s with jumps, loops := record n :: s.loops.drop 1 } := by
      refine ⟨h, ?_, hloop n rfl, rfl, rfl⟩
      rw [h]
      rfl
    exact ⟨n, _, _, hset, emits_line hrun, .inr rfl⟩

end SetsLoop

/-- A `break` jumps to the way out of the innermost loop. -/
theorem run_breakLoop (h : (breakLoop start).run s = .ok (u, s')) :
    ∃ n loop loop' outer s₁, SetsLoop loop loop' outer s s₁ ∧ loop'.exitLabel = some n ∧
      Emits [.gto n] s₁ s' := by
  rw [breakLoop, run_get_bind] at h
  cases hloops : s.loops with
  | nil =>
    rw [hloops] at h
    cases h
  | cons loop outer =>
    rw [hloops] at h
    obtain ⟨n, loop', s₁, hset, hjump, hloop⟩ := SetsLoop.of_jumpForward hloops h fun n hexit =>
      ⟨rfl, rfl, fun k hk => nomatch hexit.symm.trans hk⟩
    refine ⟨n, loop, loop', outer, s₁, hset, ?_, hjump⟩
    rcases hloop with ⟨rfl, hexit⟩ | rfl
    · exact hexit
    · rfl

/-- A `continue` jumps to the top of the innermost loop, if it may. -/
theorem run_continueLoop (h : (continueLoop start).run s = .ok (u, s')) :
    ∃ n loop loop' outer s₁, SetsLoop loop loop' outer s s₁ ∧
      (loop'.continuesAtEntry = true → n = loop'.entry) ∧ Emits [.gto n] s₁ s' := by
  rw [continueLoop, run_get_bind] at h
  cases hloops : s.loops with
  | nil =>
    rw [hloops] at h
    cases h
  | cons loop outer =>
    simp only [hloops] at h
    split at h
    · exact ⟨loop.entry, loop, loop, outer, s, ⟨hloops, hloops, .refl loop, rfl, rfl⟩, fun _ => rfl,
        emits_line h⟩
    · rename_i hentry
      obtain ⟨n, loop', s₁, hset, hjump, -⟩ := SetsLoop.of_jumpForward hloops h fun n _ =>
        ⟨rfl, rfl, fun _ => id⟩
      exact ⟨n, loop, loop', outer, s₁, hset,
        fun htrue => absurd (hset.loop_extends.continues.symm.trans htrue) hentry, hjump⟩

/-- An action lays out statements whose variables are scalars. -/
def Laying (vars : List String) (statements : List Stmt) (m : Emit Unit) : Prop :=
  ∀ s u s', (∀ name ∈ vars, s.scopes.IsScalar name) → m.run s = .ok (u, s') →
    Lays vars statements s s'

/-- Code that is written for an expression in given registers. -/
theorem assigns_expr {e : Expr} (he : e.isScalar vars = true)
    (hscalar : ∀ name ∈ vars, s.scopes.IsScalar name) (hrun : (expr labels e).run s = .ok (u, s')) :
    Assigns vars (fun place => e.code place) s s' :=
  Emitting.assigns (fun _ => emitting_expr (e.scalar he)) hscalar hrun

/-- The code of an expression stands before the line that looks at its value. -/
theorem exprAt_of_assigns {o : Op} {e : Expr} {rest : List Instr} {s₁ s₂ : Emitter}
    (he : e.isScalar vars = true) (hvalue : Assigns vars (fun place => e.code place) s s₁)
    (hemits : Emits (.op o :: rest) s₁ s₂) (hseen : Seen whole program place vars targets? s₂) :
    ExprAt program place vars o e s.size s₁.size := by
  have hseen₁ := hseen.of_grows (hemits.grows hvalue.scalar) hvalue.scalar
  have hexpr := codeAt_of_instrs (hvalue.instrs place hseen₁.places) hseen₁.code
  have hlooks := (hemits.codeAt hseen.code).head
  refine ⟨he, hseen.linked.codeAt hexpr fun instr hinstr => ?_,
    hseen.linked.plain _ _ hlooks (Instr.isPlain_op o), hvalue.size_eq hseen₁.places⟩
  exact Instr.isPlain_of_goesOn (e.goesOn_code instr hinstr)

namespace Laying

variable {offset start : Position} {test : Expr} {body orElse : List Stmt} {m : Emit Unit}
  {branch? : Option (Emit Unit)}

theorem returns : Laying vars [.returns offset none] (op .returns) := by
  intro s u s' hscalar hrun
  have hop := emits_line hrun
  refine ⟨hop.grows hscalar, fun whole program place targets? hseen rest stop hrest => ?_⟩
  rw [hop.size_eq] at hrest
  exact .returns (hseen.linked.plain _ _ (hop.codeAt hseen.code).head (Instr.isPlain_op _)) hrest

theorem returnsValue {e : Expr} (he : e.isScalar vars = true) :
    Laying vars [.returns offset (some e)] (expr labels e >>= fun _ => op .returns) := by
  intro s u s' hscalar hrun
  obtain ⟨u₁, s₁, hexpr, hop⟩ := run_bind.mp hrun
  have hvalue := assigns_expr he hscalar hexpr
  have hop := emits_line hop
  refine ⟨hvalue.grows.trans (hop.grows hvalue.scalar),
    fun whole program place targets? hseen rest stop hrest => ?_⟩
  rw [hop.size_eq] at hrest
  exact .returnsValue (exprAt_of_assigns he hvalue hop hseen) hrest

/-- The code of a condition leads to its branches, the second of which stands behind its label. -/
theorem branchTest {n k other first : Nat} {s₁ s₂ : Emitter} (htest : test.isScalar vars = true)
    (hvalue : Assigns vars (fun place => test.code place) s s₁)
    (hbranch : Emits (branchCode n k) s₁ s₂) (hseen : Seen whole program place vars targets? s₂)
    (hother : LabelAt whole other k) (hfirst : Passes program other first) :
    BranchTest program place vars test s.size s₂.size first := by
  have hat := hbranch.codeAt hseen.code
  rw [hbranch.size_eq]
  exact .intro (exprAt_of_assigns htest hvalue hbranch hseen)
    (hseen.linked.jump _ _ n hat.tail.head hat.tail.tail.tail.head)
    (hseen.linked.label _ n hat.tail.tail.tail.head)
    (hseen.linked.jump _ _ k hat.tail.tail.head hother) hfirst

theorem ifElse (htest : test.isScalar vars = true) (hbody : Laying vars body m)
    (horElse : ∀ branch ∈ branch?, Laying vars orElse branch)
    (hnone : branch? = none → orElse = []) :
    Laying vars [.ifElse offset test body orElse]
      (Emit.ifElse (expr labels test) start m branch?) := by
  intro s u s' hscalar hrun
  obtain ⟨u₁, u₂, s₁, s₂, s₃, n, k, hexpr, hbranch, hfirst, hrest⟩ := run_ifElse hrun
  have hvalue := assigns_expr htest hscalar hexpr
  have hgrows := hbranch.grows hvalue.scalar
  have hlays := hbody s₂ u₂ s₃ hgrows.scalar hfirst
  cases branch? with
  | none =>
    obtain rfl := hnone rfl
    have hlabel : Emits [.lbl (.number k)] s₃ s' := hrest
    have hgrows' := hlabel.grows hlays.grows.scalar
    refine ⟨hvalue.grows.trans (hgrows.trans (hlays.grows.trans hgrows')),
      fun whole program place targets? hseen rest stop hlaid => ?_⟩
    have hseen₃ := hseen.of_grows hgrows' hlays.grows.scalar
    have hseen₂ := hseen₃.of_grows hlays.grows hgrows.scalar
    have hat := (hlabel.codeAt hseen.code).head
    rw [hlabel.size_eq] at hlaid
    exact .ifElse (branchTest htest hvalue hbranch hseen₂ hat .refl) (hlays.laid_size hseen₃)
      (Or.inl rfl) .nil (hseen.linked.label _ k hat) hlaid
  | some branch =>
    obtain ⟨u₃, s₄, s₅, j, hskip, hsecond, hlabel⟩ := hrest
    have hgrows₄ := hskip.grows hlays.grows.scalar
    have hlays' := horElse branch rfl s₄ u₃ s₅ hgrows₄.scalar hsecond
    have hgrows' := hlabel.grows hlays'.grows.scalar
    refine ⟨hvalue.grows.trans (hgrows.trans (hlays.grows.trans (hgrows₄.trans
      (hlays'.grows.trans hgrows')))), fun whole program place targets? hseen rest stop hlaid => ?_⟩
    -- what is known behind the condition was true at each state before
    have hseen₅ := hseen.of_grows hgrows' hlays'.grows.scalar
    have hseen₄ := hseen₅.of_grows hlays'.grows hgrows₄.scalar
    have hseen₃ := hseen₄.of_grows hgrows₄ hlays.grows.scalar
    have hseen₂ := hseen₃.of_grows hlays.grows hgrows.scalar
    have hat := hskip.codeAt hseen₄.code
    have hend := (hlabel.codeAt hseen.code).head
    have hother : Passes program (s₃.size + 1) s₄.size := by
      rw [hskip.size_eq]
      exact .label (hseen.linked.label _ k hat.tail.head)
    rw [hlabel.size_eq] at hlaid
    exact .ifElse (branchTest htest hvalue hbranch hseen₂ hat.tail.head hother)
      (hlays.laid_size hseen₃) (Or.inr (hseen.linked.jump _ _ j hat.head hend))
      (hlays'.laid_size hseen₅) (hseen.linked.label _ j hend) hlaid

variable {exitLabel : Option Nat}

theorem grows_tested (htest : test.isScalar vars = true)
    (hscalar : ∀ name ∈ vars, s.scopes.IsScalar name)
    (htested : Tested labels test s exitLabel s') : Grows vars s s' := by
  cases htested with
  | always => exact (Emits.refl s).grows hscalar
  | tested hexpr hexit =>
    have hvalue := assigns_expr htest hscalar hexpr
    exact hvalue.grows.trans (hexit.grows hvalue.scalar)

/-- The code of the condition of a loop leads into its body or to where its exit label is. -/
theorem loopTest {exit : Nat} (htest : test.isScalar vars = true)
    (hscalar : ∀ name ∈ vars, s.scopes.IsScalar name) (htested : Tested labels test s exitLabel s')
    (hseen : Seen whole program place vars targets? s')
    (hlabel : ∀ n, exitLabel = some n → LabelAt whole exit n) :
    LoopTest program place vars test s.size s'.size exit := by
  cases htested with
  | always htrue => exact .always htrue
  | @tested n u s₁ _ hexpr hexit =>
    have hvalue := assigns_expr htest hscalar hexpr
    have hat := hexit.codeAt hseen.code
    rw [hexit.size_eq]
    exact .tested (exprAt_of_assigns htest hvalue hexit hseen)
      (hseen.linked.jump _ _ n hat.tail.head (hlabel n rfl))

/-- Behind a loop is its label, if it has one. -/
theorem passes_exitCode {line : Nat} (hlinked : Linked whole program)
    (hat : CodeAt whole line (exitCode exitLabel)) :
    Passes program line (line + (exitCode exitLabel).length) := by
  cases exitLabel with
  | none => exact .refl
  | some n => exact .label (hlinked.label _ n hat.head)

theorem whileLoop (htest : test.isScalar vars = true) (hbody : Laying vars body m) :
    Laying vars [.whileLoop offset test body] (Emit.whileLoop labels start test m) := by
  intro s u s' hscalar hrun
  obtain ⟨u₁, entry, exitLabel, s₁, s₂, s₃, hentry, htested, hrun, hclose⟩ := run_whileLoop hrun
  have hgrows₁ := hentry.grows hscalar
  have hgrows₂ := grows_tested htest hgrows₁.scalar htested
  have hlays : Lays vars body { s₂ with loops := ⟨entry, true, none, exitLabel⟩ :: s₂.loops } s₃ :=
    hbody _ u₁ s₃ hgrows₂.scalar hrun
  obtain ⟨loop, outer, hloop, houter, hloops⟩ := List.forall₂_cons_left_iff.mp hlays.grows.loops
  have hclose := hclose loop outer hloops
  -- outside the loop, its own labels are forgotten
  have hgrows₃ : Grows vars s₂ { s₃ with loops := outer } :=
    ⟨hlays.grows.code, hlays.grows.scalar, hlays.grows.kept, houter⟩
  have hgrows' := hclose.grows hgrows₃.scalar
  refine ⟨hgrows₁.trans (hgrows₂.trans (hgrows₃.trans hgrows')),
    fun whole program place targets? hseen rest stop hlaid => ?_⟩
  have hseen₃ := hseen.of_grows hgrows' hgrows₃.scalar
  have hseen₂ := hseen₃.of_grows hgrows₃ hgrows₂.scalar
  have hseen₁ := hseen₂.of_grows hgrows₂ hgrows₁.scalar
  have hat : CodeAt whole s₃.size _ := hclose.codeAt hseen.code
  have htop := (hentry.codeAt hseen₁.code).head
  -- the label of the way out may have come up in the body only
  have hexit : ∀ n, loop.exitLabel = some n → LabelAt whole (s₃.size + 1) n := by
    intro n hn
    rw [hn] at hat
    exact hat.tail.head
  have hinside : Seen whole program place vars (some ⟨s.size, s₃.size + 1⟩) s₃ := by
    refine ⟨hseen.linked, hseen₃.code, hseen₃.places, ?_⟩
    rw [hloops]
    exact ⟨_, rfl, hloop.continues, hloop.entry ▸ htop, hexit⟩
  have htop' := loopTest htest hgrows₁.scalar htested hseen₂ fun n hn => hexit n (hloop.exit n hn)
  rw [hentry.size_eq] at htop'
  have hsize : s'.size = s₃.size + 1 + (exitCode loop.exitLabel).length := by
    rw [hclose.size_eq, List.length_cons, Nat.add_right_comm, Nat.add_assoc]
    rfl
  rw [hsize] at hlaid
  exact .whileLoop (hseen.linked.label _ entry htop) htop' (hlays.laid_size hinside)
    (hseen.linked.jump _ _ entry hat.head htop) (passes_exitCode hseen.linked hat.tail) hlaid

theorem breaks : Laying vars [.breaks offset] (breakLoop start) := by
  intro s u s' hscalar hrun
  obtain ⟨n, loop, loop', outer, s₁, hset, hexit, hjump⟩ := run_breakLoop hrun
  have hgrows := hset.grows hscalar
  refine ⟨hgrows.trans (hjump.grows hgrows.scalar),
    fun whole program place targets? hseen rest stop hlaid => ?_⟩
  have hat := (hjump.codeAt hseen.code).head
  have hfits := hseen.fits
  rw [hjump.loops, hset.after] at hfits
  obtain ⟨targets, rfl, -, -, hout⟩ := hfits
  rw [hset.size_eq] at hat
  rw [hjump.size_eq, hset.size_eq] at hlaid
  exact .breaks (hseen.linked.jump _ _ n hat (hout n hexit)) hlaid

theorem continues : Laying vars [.continues offset] (continueLoop start) := by
  intro s u s' hscalar hrun
  obtain ⟨n, loop, loop', outer, s₁, hset, hentry, hjump⟩ := run_continueLoop hrun
  have hgrows := hset.grows hscalar
  refine ⟨hgrows.trans (hjump.grows hgrows.scalar),
    fun whole program place targets? hseen rest stop hlaid => ?_⟩
  have hat := (hjump.codeAt hseen.code).head
  have hfits := hseen.fits
  rw [hjump.loops, hset.after] at hfits
  obtain ⟨targets, rfl, hcontinues, htop, -⟩ := hfits
  rw [hset.size_eq] at hat
  rw [hjump.size_eq, hset.size_eq] at hlaid
  exact .continues (hseen.linked.jump _ _ n hat (hentry hcontinues ▸ htop)) hlaid

/-- A statement without control flow. -/
theorem simple {statement : Stmt} {code : (String → Register) → List Instr}
    (hcase : ∀ name ∈ vars, isAllUppercase name = false) (h : statement.isScalar vars = true)
    (hcode : ∀ place, statement.code? place = some (code place)) :
    Laying vars [statement] (stmt labels statement) :=
  fun _ _ _ hscalar hrun => (assigns_stmt hscalar hcase h hcode hrun).lays h hcode

theorem augmented {target value : Expr} {op : Python.BinaryOp}
    (hcase : ∀ name ∈ vars, isAllUppercase name = false)
    (h : (Stmt.augmented offset target op value).isScalar vars = true) :
    Laying vars [.augmented offset target op value]
      (stmt labels (.augmented offset target op value)) := by
  have hvariable : target.isVariable vars = true := by
    rw [Stmt.isScalar, Bool.and_eq_true, Bool.and_eq_true] at h
    exact h.1.2
  cases target
  case name id =>
    cases hstore : op.storeOp? with
    | some o => exact simple hcase h fun place => by rw [Stmt.code?, hstore]
    | none => exact simple hcase h fun place => by rw [Stmt.code?, hstore]
  all_goals cases hvariable

end Laying

/-! ### Statements -/

mutual

theorem lays_stmt (hcase : ∀ name ∈ vars, isAllUppercase name = false) :
    ∀ statement : Stmt, statement.isScalar vars = true →
      Laying vars [statement] (stmt labels statement)
  | .pass _, h | .expression _ _, h | .assign _ _ _ _, h => .simple hcase h fun _ => rfl
  | .augmented _ _ _ _, h => .augmented hcase h
  | .returns _ none, _ => .returns
  | .returns _ (some _), h => .returnsValue h
  | .ifElse _ test body orElse, h => by
    simp only [Stmt.isScalar, Bool.and_eq_true] at h
    obtain ⟨⟨htest, hbody⟩, horElse⟩ := h
    refine .ifElse htest (lays_block hcase body hbody) ?_ ?_
    · intro branch hbranch
      split at hbranch
      · cases hbranch
      · cases hbranch
        exact lays_block hcase orElse horElse
    · intro hnone
      split at hnone
      · exact List.isEmpty_iff.mp ‹_›
      · cases hnone
  | .whileLoop _ test body, h => by
    simp only [Stmt.isScalar, Bool.and_eq_true] at h
    exact .whileLoop h.1 (lays_block hcase body h.2)
  | .breaks _, _ => .breaks
  | .continues _, _ => .continues
  | .forLoop _ _ _ _, h | .assertion _ _, h | .functionDef _ _ _, h => nomatch h

/-- Scalar statements are laid out one after the other. -/
theorem lays_block (hcase : ∀ name ∈ vars, isAllUppercase name = false) :
    ∀ statements : List Stmt, Stmt.areScalar vars statements = true →
      Laying vars statements (block labels statements)
  | [], _ => by
    intro s u s' hscalar hrun
    cases hrun
    exact .nil hscalar
  | statement :: rest, h => by
    rw [Stmt.areScalar, Bool.and_eq_true] at h
    intro s u s' hscalar hrun
    obtain ⟨u₁, s₁, hstmt, hrest⟩ := run_bind.mp hrun
    have hlays := lays_stmt hcase statement h.1 s u₁ s₁ hscalar hstmt
    exact hlays.append (lays_block hcase rest h.2 s₁ u s' hlays.grows.scalar hrest)

end

end Emit

end

end Keystroke
