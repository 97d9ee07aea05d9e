import Keystroke.Proofs.CodeDiscipline

/-!
# Disciplines of control flow

Conditions and loops add jumps to the code of expressions. A label has to be handed out before it is
jumped to, and the counter of a loop gets its register long before its first value. A property that
also holds of these steps holds of the code of every statement.
-/

namespace Keystroke

open Script (Expr Ident Stmt)

/-- All labels of a loop have a property. -/
structure Loop.All (p : Nat → Prop) (loop : Loop) : Prop where
  entry : p loop.entry
  continueLabel : ∀ n ∈ loop.continueLabel, p n
  exitLabel : ∀ n ∈ loop.exitLabel, p n

theorem Loop.All.trivial {loop : Loop} : loop.All fun _ => True :=
  ⟨True.intro, fun _ _ => True.intro, fun _ _ => True.intro⟩

theorem Loop.All.mono {p q : Nat → Prop} {loop : Loop} (h : loop.All p) (hpq : ∀ n, p n → q n) :
    loop.All q :=
  ⟨hpq _ h.entry, fun n hn => hpq n (h.continueLabel n hn), fun n hn => hpq n (h.exitLabel n hn)⟩

namespace Emit

def Facts.labels (known : Facts) (n : Nat) : Prop :=
  known (.label n)

/-- An instruction that can stand before a jump: a test, or one on a counter that can be worked
on. -/
inductive Tests (known : Facts) : Instr → Prop where
  | op (o : Op) : Tests known (.op o)
  | counter {register : Register} (h : known (.usable register)) :
      Tests known (.memory .stepCounter (.register register))

/-- A discipline that the steps of control flow keep to as well. -/
structure FlowDiscipline (labels : FunctionLabels) extends Discipline labels where
  sourceOf {known : Facts} {id : Ident} (hplace : words.place id.start) :
    Holds known (Emit.sourceOf id) fun source later =>
      later (.usable source) ∧ later (.container source)
  anonymous {known : Facts} {start : Position} (hplace : words.place start) :
    Holds known (Emit.anonymous start) fun register later => later (.granted register)
  /-- A register is stored to for the first time. -/
  fill {known : Facts} {register : Register} {comment : String} (hdeclares : declares false)
    (h : known (.granted register)) :
    Holds known (Emit.store register comment false) fun _ later => later (.usable register)
  skipLabel {known : Facts} {start : Position} (hplace : words.place start) :
    Holds known (Emit.skipLabel start) fun n later => later.labels n
  loopLabel {known : Facts} {start : Position} (hplace : words.place start) :
    Holds known (Emit.loopLabel start) fun n later => later.labels n
  place {known : Facts} (n : Nat) : Holds known (Emit.place n) fun _ _ => True
  placeSkip {known : Facts} {n : Nat} (h : known.labels n) :
    Holds known (Emit.placeSkip n) fun _ _ => True
  jump {known : Facts} {n : Nat} (h : known.labels n) : Holds known (Emit.jump n) fun _ _ => True
  test {known : Facts} {instr : Instr} {n : Nat} (hinstr : Tests known instr) (h : known.labels n) :
    Holds known (Emit.line instr >>= fun _ => Emit.jump n) fun _ _ => True
  returns {known : Facts} : Holds known (Emit.op .returns) fun _ _ => True
  loopBody {known : Facts} {loop : Loop} {body : Emit Unit} (hloop : loop.All known.labels)
    (hbody : toDiscipline.Tame body) :
    Holds known (Emit.loopBody loop body) fun loop later => loop.All later.labels
  setLoop {known : Facts} {loop : Loop} (h : loop.All known.labels) :
    Holds known (Emit.setLoop loop) fun _ _ => True
  /-- An action that looks at the loops around. -/
  loops {α : Type} {known : Facts} {f : Emitter → Emit α} {Q : α → Facts → Prop}
    (hlimit : ∀ s limit, f (s.withLimit limit) = f s)
    (hf : ∀ s later, known.Later later → (∀ loop ∈ s.loops, loop.All later.labels) →
      Holds later (f s) Q) : Holds known (get >>= f) Q

namespace FlowDiscipline

open Discipline (Tame next onRegister)

variable {α : Type} {labels : FunctionLabels} {D : FlowDiscipline labels} {known : Facts}
  {Q : α → Facts → Prop} {body : Emit Unit} {target : Ident} {label : Option Nat} {test : Expr}
  {args : List Expr} {start : Position}

/-! ### Conditions -/

theorem test_bind {instr : Instr} {n : Nat} {f : Unit → Emit α} (hinstr : Tests known instr)
    (h : known.labels n) (hf : D.Holds known (f ()) Q) :
    D.Holds known (line instr >>= fun _ => Emit.jump n >>= f) Q := by
  rw [← bind_assoc]
  exact next (D.test hinstr h) fun _ => hf

theorem placeSkip? (h : ∀ n ∈ label, known.labels n) :
    D.Holds known (Emit.placeSkip? label) fun _ _ => True := by
  cases label with
  | none => exact D.pure fun _ _ => trivial
  | some n => exact D.placeSkip (h n rfl)

theorem tame_ifElse {test : Emit Unit} {orElse : Option (Emit Unit)} (hplace : D.words.place start)
    (htest : D.Tame test) (hbody : D.Tame body) (horElse : ∀ branch ∈ orElse, D.Tame branch) :
    D.Tame (ifElse test start body orElse) := by
  refine .bind htest fun _ known => D.bind (D.skipLabel hplace) fun thenLabel k₁ _ hthen =>
    D.bind (D.skipLabel hplace) fun elseLabel k₂ h₂ helse => test_bind (.op _) (h₂ _ hthen) ?_
  refine next (D.jump helse) fun _ => next (D.placeSkip (h₂ _ hthen)) fun _ =>
    next (hbody k₂) fun _ => ?_
  cases orElse with
  | none => exact D.placeSkip helse
  | some branch =>
    exact D.bind (D.skipLabel hplace) fun endLabel k₃ h₃ hend => next (D.jump hend) fun _ =>
      next (D.placeSkip (h₃ _ helse)) fun _ => next (horElse branch rfl k₃) fun _ =>
        D.placeSkip hend

/-! ### Loops -/

theorem leaveUnless (hnamed : test.Named D.words) (h : ∀ name ∈ test.storedNames, D.stores name) :
    D.Holds known (Emit.leaveUnless labels test) fun exit later => later.labels exit :=
  next (Discipline.tame_expr hnamed h known) fun _ =>
    D.bind (D.skipLabel hnamed.place) fun _ _ _ hexit =>
    test_bind (.op _) hexit (D.pure fun _ hlater => hlater _ hexit)

theorem tame_whileLoop (hplace : D.words.place start) (hnamed : test.Named D.words)
    (h : ∀ name ∈ test.storedNames, D.stores name) (hbody : D.Tame body) :
    D.Tame (whileLoop labels start test body) := by
  refine fun known => D.bind (D.loopLabel hplace) fun entry k₁ _ hentry =>
    next (D.place _) fun _ => ?_
  have hrest : ∀ (exitLabel : Option Nat) later, k₁.Later later →
      (∀ n ∈ exitLabel, later.labels n) → D.Holds later (do
        let loop ← Emit.loopBody { entry, continuesAtEntry := true, exitLabel } body
        Emit.jump entry
        Emit.placeSkip? loop.exitLabel) fun _ _ => True := fun exitLabel later h₂ hexit =>
    D.bind (D.loopBody ⟨h₂ _ hentry, nofun, hexit⟩ hbody) fun loop k₃ h₃ hloop =>
      next (D.jump (h₃ _ (h₂ _ hentry))) fun _ => placeSkip? hloop.exitLabel
  cases htest : test.isConstantTrue with
  | true => exact hrest none k₁ (fun _ => id) nofun
  | false =>
    simp only [Bool.false_eq_true, if_false, bind_map_left]
    refine D.bind (leaveUnless hnamed h) fun exit k₂ h₂ hexit =>
      hrest (some exit) k₂ h₂ fun n hn => ?_
    cases hn
    exact hexit

theorem closeCounted {counter : Register} {loop : Loop} (hcounter : known (.usable counter))
    (hloop : loop.All known.labels) :
    D.Holds known (Emit.closeCounted counter loop) fun _ _ => True :=
  next (placeSkip? hloop.continueLabel) fun _ =>
    test_bind (.counter hcounter) hloop.entry (placeSkip? hloop.exitLabel)

theorem mem_of_rangeBounds? {bounds : RangeBounds} (h : rangeBounds? args = some bounds) :
    bounds.stop ∈ args ∧ (∀ e ∈ bounds.first, e ∈ args) ∧
      ∀ e ∈ bounds.step, e ∈ args := by
  unfold rangeBounds? at h
  split at h <;> cases h <;> simp

theorem tame_forRange (hplace : D.words.place start) (hdeclares : D.declares false)
    (hstores : D.stores target.name) (htarget : D.words.Has target)
    (hnamed : ∀ e ∈ args, e.Named D.words)
    (hargs : ∀ name ∈ Script.operandNames args, D.stores name) (hbody : D.Tame body) :
    D.Tame (forRange labels target args start body) := by
  rw [Script.forall_operandNames] at hargs
  unfold forRange
  split
  · exact .fail rfl hplace
  · rename_i bounds hbounds
    obtain ⟨hstop, hfirst, hstep⟩ := mem_of_rangeBounds? hbounds
    refine .bind (Discipline.tame_checkBounds (hnamed _ hstop) hplace) fun _ =>
      .bind (Discipline.tame_boundOr _ (fun e he => hnamed e (hfirst e he)) fun e he =>
        hargs e (hfirst e he))
      fun _ => .bind (Discipline.tame_expr (hnamed _ hstop) (hargs _ hstop)) fun _ =>
      .bind (Discipline.tame_boundOr _ (fun e he => hnamed e (hstep e he)) fun e he =>
        hargs e (hstep e he))
      fun _ => .bind (.call _) fun _ known => ?_
    refine D.assigned hdeclares hstores rfl htarget.place fun counter k₁ _ hcounter =>
      D.bind (D.loopLabel hplace) fun entry k₂ h₂ hentry => next (D.place _) fun _ => ?_
    exact D.bind (D.loopBody ⟨hentry, nofun, nofun⟩ hbody) fun loop k₃ h₃ hloop =>
      closeCounted (h₃ _ (h₂ _ hcounter)) hloop

theorem tame_forElements {container : Ident} (hplace : D.words.place start)
    (hcontainer : D.words.Has container) (hdeclares : D.declares false)
    (hstores : D.stores target.name) (htarget : D.words.Has target) (hbody : D.Tame body) :
    D.Tame (forElements target container start body) := by
  -- the counter is handed out long before it is stored to, but nothing reads it in between
  rw [forElements_eq]
  refine fun known => D.bind (D.sourceOf hcontainer.place) fun source k₁ _ ⟨hsource, hlist⟩ =>
    D.bind (D.anonymous hplace) fun counter k₂ h₂ hgranted =>
    D.bind (D.skipLabel hplace) fun exit k₃ h₃ hexit => ?_
  refine next (D.line trivial) fun _ => next (D.selectContainer (h₃ _ (h₂ _ hlist))) fun _ =>
    next (D.call _) fun _ => test_bind (.op _) hexit ?_
  refine next (D.line trivial) fun _ => next (D.call _) fun _ =>
    D.bind (D.fill hdeclares (h₃ _ hgranted)) fun _ k₄ h₄ hcounter =>
    D.bind (D.loopLabel hplace) fun entry k₅ h₅ hentry => next (D.place _) fun _ => ?_
  refine next (Discipline.loadRow (h₅ _ (h₄ _ (h₃ _ (h₂ _ hsource)))) (h₅ _ hcounter)) fun _ =>
    D.assigned hdeclares hstores rfl htarget.place fun item k₆ h₆ _ => ?_
  refine D.bind (D.loopBody ⟨h₆ _ hentry, nofun, fun n hn => ?_⟩ hbody) fun loop k₇ h₇ hloop =>
    closeCounted (h₇ _ (h₆ _ (h₅ _ hcounter))) hloop
  cases hn
  exact h₆ _ (h₅ _ (h₄ _ hexit))

theorem tame_forLoop {iterable : Expr} (hplace : D.words.place start) (hdeclares : D.declares false)
    (hstores : D.stores target.name) (htarget : D.words.Has target)
    (hnamed : iterable.Named D.words)
    (h : ∀ name ∈ iterable.storedNames, D.stores name) (hbody : D.Tame body) :
    D.Tame (forLoop labels start target iterable body) := by
  have hiterable := hnamed.place
  cases hnamed with
  | call hcall _ hargs =>
    rw [Expr.storedNames, List.forall_mem_append] at h
    exact .ite (tame_forRange hcall hdeclares hstores htarget hargs h.2 hbody) (.fail rfl hcall)
  | name hcontainer => exact tame_forElements hplace hcontainer hdeclares hstores htarget hbody
  | _ => exact .fail rfl hiterable

/-! ### Leaving a loop -/

theorem jumpForward (hplace : D.words.place start) {record : Nat → Loop}
    (hlabel : ∀ n ∈ label, known.labels n)
    (hrecord : ∀ later, known.Later later → ∀ n, later.labels n → (record n).All later.labels) :
    D.Holds known (Emit.jumpForward start label record) fun _ _ => True := by
  cases label with
  | some n => exact D.jump (hlabel n rfl)
  | none =>
    exact D.bind (D.skipLabel hplace) fun n later hlater hn =>
      next (D.setLoop (hrecord later hlater n hn)) fun _ => D.jump hn

theorem tame_breakLoop (hplace : D.words.place start) : D.Tame (breakLoop start) := by
  refine fun known => D.loops (fun _ _ => rfl) fun s later _ hs => ?_
  split
  · exact D.fail rfl hplace
  · rename_i loop outer hloops
    have hloop := hs loop (hloops ▸ List.mem_cons_self)
    refine jumpForward hplace hloop.exitLabel fun k hk n hn => ?_
    have hloop := hloop.mono fun n => hk (.label n)
    exact ⟨hloop.entry, hloop.continueLabel, by simpa using hn⟩

theorem tame_continueLoop (hplace : D.words.place start) : D.Tame (continueLoop start) := by
  refine fun known => D.loops (fun _ _ => rfl) fun s later _ hs => ?_
  split
  · exact D.fail rfl hplace
  · rename_i loop outer hloops
    have hloop := hs loop (hloops ▸ List.mem_cons_self)
    refine Discipline.ite (D.jump hloop.entry)
      (jumpForward hplace hloop.continueLabel fun k hk n hn => ?_)
    have hloop := hloop.mono fun n => hk (.label n)
    exact ⟨hloop.entry, by simpa using hn, hloop.exitLabel⟩

/-! ### Statements -/

/-- The code of assignments is tame. Where that is so, variables may also be stored to by loops. -/
structure Assigns (D : FlowDiscipline labels) : Prop where
  declares : D.declares false
  assign : ∀ {target value : Expr} {others : List Expr}, (∀ e ∈ target :: others, e.Named D.words) →
    value.Named D.words → (∀ e ∈ target :: others, ∀ name ∈ e.targetNames, D.stores name) →
    (∀ name ∈ value.storedNames, D.stores name) → D.Tame (Emit.assign labels target others value)

theorem Assigns.of_declares (h : ∀ alpha, D.declares alpha) : D.Assigns :=
  ⟨h false, Discipline.tame_assign (.of_declares h)⟩

mutual

/-- The code of a statement is tame, if its numbers and texts may be written and the names may be
stored to that it stores to. -/
theorem tame_stmt (hassigns : D.Assigns) : ∀ s : Stmt, s.Named D.words →
    (∀ name ∈ s.storedNames, D.stores name) → D.Tame (stmt labels s)
  | .pass _, _, _ => .pure _
  | .expression _ value, .expression _ hvalue, h => by
    exact Discipline.tame_expr hvalue h
  | .returns _ none, _, _ => fun _ => D.returns
  | .returns _ (some value), .returns _ hvalue, h => by
    exact .bind (Discipline.tame_expr (hvalue value rfl) h) fun _ _ => D.returns
  | .assign _ target others value, .assign _ htarget hothers hvalue, h => by
    rw [Stmt.storedNames, List.forall_mem_append] at h
    refine hassigns.assign (List.forall_mem_cons.mpr ⟨htarget, hothers⟩) hvalue
      (fun e he name hname => h.1 name ?_) h.2
    exact List.mem_flatMap.mpr ⟨e, he, hname⟩
  | .augmented _ _ operator _, .augmented _ htarget hvalue, h => by
    exact Discipline.tame_augment operator hassigns.declares htarget hvalue h
  | .ifElse _ test body orElse, .ifElse _ htest hbody horElse, h => by
    rw [Stmt.storedNames, List.forall_mem_append, List.forall_mem_append] at h
    refine tame_ifElse htest.place (Discipline.tame_expr htest h.1.1)
      (tame_block hassigns body hbody h.1.2) fun branch hbranch => ?_
    split at hbranch
    · cases hbranch
    · cases hbranch
      exact tame_block hassigns orElse horElse h.2
  | .whileLoop _ test body, .whileLoop hplace htest hbody, h => by
    rw [Stmt.storedNames, List.forall_mem_append] at h
    exact tame_whileLoop hplace htest h.1 (tame_block hassigns body hbody h.2)
  | .forLoop _ target iterable body, .forLoop hplace htarget hiterable hbody, h => by
    rw [Stmt.storedNames, List.forall_mem_cons, List.forall_mem_append] at h
    exact tame_forLoop hplace hassigns.declares h.1 htarget hiterable h.2.1
      (tame_block hassigns body hbody h.2.2)
  | .breaks _, .breaks hplace, _ => tame_breakLoop hplace
  | .continues _, .continues hplace, _ => tame_continueLoop hplace
  | .assertion _ test, .assertion _ htest, h => by
    exact .bind (Discipline.tame_expr htest h) fun _ => .call _
  | .functionDef _ _ _, .functionDef _ hname _ _, _ => .fail rfl hname.place

theorem tame_block (hassigns : D.Assigns) : ∀ body : List Stmt, (∀ s ∈ body, s.Named D.words) →
    (∀ name ∈ Script.storedNames body, D.stores name) → D.Tame (block labels body)
  | [], _, _ => .pure _
  | s :: rest, hnamed, h => by
    rw [List.forall_mem_cons] at hnamed
    rw [Script.storedNames, List.forall_mem_append] at h
    exact .bind (tame_stmt hassigns s hnamed.1 h.1) fun _ => tame_block hassigns rest hnamed.2 h.2

end

theorem tame_ownCode (hassigns : D.Assigns) {body : List Stmt}
    (hnamed : ∀ s ∈ body, s.Named D.words)
    (h : ∀ name ∈ Script.storedNames body, D.stores name) : D.Tame (ownCode labels body) := by
  induction body using ownCode.induct with
  | case1 => exact .pure _
  | case2 _ _ _ rest ih =>
    rw [Script.storedNames, List.forall_mem_append] at h
    exact ih (List.forall_mem_cons.mp hnamed).2 h.2
  | case3 statement rest hnot ih =>
    rw [List.forall_mem_cons] at hnamed
    rw [Script.storedNames, List.forall_mem_append] at h
    rw [ownCode]
    · exact .bind (tame_stmt hassigns statement hnamed.1 h.1) fun _ => ih hnamed.2 h.2
    · exact hnot

end FlowDiscipline

end Emit

end Keystroke
