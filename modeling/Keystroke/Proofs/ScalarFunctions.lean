import Keystroke.Proofs.FunctionStarts
import Keystroke.Proofs.LinkClosure
import Keystroke.Proofs.ScalarLayout

/-!
# Scalar functions do what they mean

A function that works on numbers only is written as a label, code that stores its parameters, and
the code of its body. From there on the machine does what the body means: it comes to a return
exactly if the body runs to an end, with the same values of the variables and with the value that is
returned. This holds in the program as it is written out, where forward labels are used again and
the labels of the library may be local.
-/

namespace Keystroke

open Emit Listing

variable {instr : Instr} {start : Nat} {registers : List Register} {statements : List Stmt}
  {whole : List Instr} {t t' : Emitter}

open Script (Ident Stmt)
open Machine (Ends EndsIn Steps step stepAt)

/-! ### Bodies of functions -/

/-- From a line of a program on, the machine does what the body of a function means, whatever the
numbers are and whatever is on the stack and in the registers. If the body runs to an end, then the
machine comes to a return, with the values of the variables in their registers and the value that is
returned in X. If the machine comes to a return, then the body runs to an end with the values that
are found there. -/
def Simulates (program : List Instr) (place : String → Register) (start : Nat) (body : List Stmt) :
    Prop :=
  ∀ (V : Type) (A : Arithmetic V) (stack : List V) (registers : Register → V),
    (∀ result env, Finishes A body (registers ∘ place) result env →
      ∃ last, Ends A program ⟨⟨stack, registers⟩, start⟩ last ∧ last.registers ∘ place = env ∧
        ∀ v, result = some v → last.stack.head? = some v) ∧
    ∀ last, Ends A program ⟨⟨stack, registers⟩, start⟩ last →
      ∃ result, Finishes A body (registers ∘ place) result (last.registers ∘ place) ∧
        ∀ v, result = some v → last.stack.head? = some v

/-- What the body of a function returns, if it ends outside of loops. -/
def Outcome.result? {V : Type} : Outcome V → Option (Option V)
  | .next => some none
  | .returned value => some value
  | .broke | .continued => none

section

variable {V : Type} {A : Arithmetic V} {program : List Instr} {place : String → Register}
  {vars : List String} {body : List Stmt} {start stop : Nat} {machine : Machine V}

theorem finishes_iff {env env' : Env V} {result : Option V} :
    Finishes A body env result env' ↔ ∃ o, Runs A body env o env' ∧ o.result? = some result := by
  constructor
  · rintro (⟨rfl, hruns⟩ | hruns)
    · exact ⟨.next, hruns, rfl⟩
    · exact ⟨.returned result, hruns, rfl⟩
  · rintro ⟨o, hruns, hresult⟩
    cases o with
    | next => exact Or.inl ⟨(Option.some.inj hresult).symm, hruns⟩
    | returned value => exact Or.inr (Option.some.inj hresult ▸ hruns)
    | broke => cases hresult
    | continued => cases hresult

/-- Outside of loops, statements that have come to an end leave the machine at a return. -/
theorem Lands.returns {o : Outcome V} (h : Lands program none stop o machine)
    (hstop : o = .next → InstrAt program stop (.op .returns)) :
    InstrAt program machine.line (.op .returns) ∧ ∃ result, o.result? = some result ∧
      ∀ v, result = some v → machine.stack.head? = some v := by
  cases o with
  | next =>
    have hline : machine.line = stop := h
    exact ⟨hline ▸ hstop rfl, none, rfl, nofun⟩
  | returned value => exact ⟨h.1, value, rfl, h.2⟩
  | broke =>
    obtain ⟨targets, htargets, -⟩ := h
    cases htargets
  | continued =>
    obtain ⟨targets, htargets, -⟩ := h
    cases htargets

theorem Machine.EndsIn.eq_of_returns {n : Nat} {last : Machine V}
    (h : EndsIn A program n machine last) (hreturns : InstrAt program machine.line (.op .returns)) :
    last = machine := by
  obtain ⟨hsteps, -⟩ := h
  cases hsteps with
  | refl => rfl
  | head hstep _ =>
    rw [Machine.step_of_returns hreturns] at hstep
    cases hstep

/-- The code of a body does what the body means, if a return stands behind it. It need not stand
there if one of the statements leaves the body. -/
theorem Laid.simulates (hplace : Function.Injective place)
    (h : Laid program place vars none body start stop)
    (hstop : (∀ s ∈ body, s.leaves = false) → InstrAt program stop (.op .returns)) :
    Simulates program place start body := by
  intro V A stack registers
  -- a body that runs to its end has no statement that leaves it
  have hreturns : ∀ {o : Outcome V} {env : Env V}, Runs A body (registers ∘ place) o env →
      o = .next → InstrAt program stop (.op .returns) := by
    rintro o env hruns rfl
    exact hstop hruns.not_leaves
  refine ⟨fun result env hfinishes => ?_, fun last hends => ?_⟩
  · obtain ⟨o, hruns, hresult⟩ := finishes_iff.mp hfinishes
    have harrives : Arrives A program place vars ⟨⟨stack, registers⟩, start⟩ env
        (Lands program none stop o) := hruns.simulated hplace h rfl
    obtain ⟨n, last, hsteps, henv, -, hlands⟩ := harrives
    obtain ⟨hat, result', hresult', hvalue⟩ := hlands.returns (hreturns hruns)
    obtain rfl : result' = result := Option.some.inj (hresult'.symm.trans hresult)
    exact ⟨last, ⟨n, hsteps, hat⟩, henv, hvalue⟩
  -- a run to a return tells that the body ends, and then goes through where the body ends
  · obtain ⟨n, hends⟩ := hends
    obtain ⟨o, env, hruns⟩ := Laid.exists_runs hplace n h (Nat.le_refl n) hends
    obtain ⟨k, stack', registers', line, -, rfl, hlands, hends⟩ := h.ends hplace hruns hends
    obtain ⟨hat, result, hresult, hvalue⟩ := hlands.returns (hreturns hruns)
    obtain rfl := hends.eq_of_returns hat
    exact ⟨result, finishes_iff.mpr ⟨o, hruns, hresult⟩, hvalue⟩

end

/-! ### Local library labels -/

/-- A routine is called by its name as by its number. -/
theorem Routine.ofLabel?_localised (label : Label) :
    ofLabel? (localised label) = ofLabel? label := by
  cases label with
  | letter c => rfl
  | number n => rfl
  | global name =>
    by_cases hheader : name = libraryHeader
    · subst hheader
      decide +kernel
    · cases hroutine : ofName? name with
      | none => simp [localised, hheader, hroutine]
      | some routine =>
        obtain rfl := name_of_ofName? hroutine
        have hall : ∀ routine, all.find? (·.localLabel == routine.localLabel) = some routine := by
          decide +kernel
        rw [localised_name]
        exact (hall routine).trans hroutine.symm

theorem Listing.finalInstr_eq_op {localLabels : Bool} {o : Op} :
    finalInstr localLabels instr = .op o ↔ instr = .op o := by
  cases localLabels with
  | false => rfl
  | true =>
    show localisedInstr instr = .op o ↔ _
    cases instr <;> simp [localisedInstr]

namespace Machine

variable {V : Type} {A : Arithmetic V} {program program' : List Instr} {localLabels : Bool}
  {machine last : Machine V}

/-- In a program without jumps to labels of the library, library labels may be local. -/
theorem step_map_finalInstr (hjumps : ∀ line n, JumpAt program line n → n < 50 ∨ 90 ≤ n)
    (machine : Machine V) :
    step A (program.map (finalInstr localLabels)) machine = step A program machine := by
  cases hinstr : program[machine.line]? with
  | none => simp [step, hinstr]
  | some instr =>
    have hat : InstrAt program machine.line instr := hinstr
    rw [step_at hat, step_at (instrAt_map.mpr ⟨instr, hat, rfl⟩)]
    cases localLabels with
    | false => rw [show finalInstr false = id from rfl, List.map_id, id_eq]
    | true =>
      cases instr with
      -- only jumps and calls look at the labels of a program
      | gto n =>
        show (jumpTarget? _ machine.line n).map _ = (jumpTarget? _ machine.line n).map _
        rw [jumpTarget?_map_finalInstr (hjumps _ n hat)]
      | xeq label =>
        show (A.apply (.xeq (localised label)) _).map _ = (A.apply (.xeq label) _).map _
        rw [Arithmetic.apply, Arithmetic.apply, Routine.ofLabel?_localised]
      | op o => cases o <;> rfl
      | _ => rfl

theorem Steps.of_step_eq {n : Nat}
    (hstep : ∀ machine, step A program machine = step A program' machine)
    (h : Steps A program n machine last) : Steps A program' n machine last := by
  induction h with
  | refl machine => exact .refl machine
  | head hfirst _ ih => exact .head ((hstep _).symm.trans hfirst) ih

/-- The form of library labels makes no difference to where the machine comes to a return. -/
theorem ends_map_finalInstr (hjumps : ∀ line n, JumpAt program line n → n < 50 ∨ 90 ≤ n) :
    Ends A (program.map (finalInstr localLabels)) machine last ↔
      Ends A program machine last := by
  have hreturns : InstrAt (program.map (finalInstr localLabels)) last.line (.op .returns) ↔
      InstrAt program last.line (.op .returns) := by
    simp [instrAt_map, finalInstr_eq_op]
  constructor
  · rintro ⟨n, hsteps, hlast⟩
    exact ⟨n, hsteps.of_step_eq (step_map_finalInstr hjumps), hreturns.mp hlast⟩
  · rintro ⟨n, hsteps, hlast⟩
    exact ⟨n, hsteps.of_step_eq fun machine => (step_map_finalInstr hjumps machine).symm,
      hreturns.mpr hlast⟩

end Machine

variable {program : List Instr} {place : String → Register} {body : List Stmt}

/-! ### Labels that are used again -/

section

variable {xs ys : List Instr} {pools : JumpLabels} {next line : Nat}

/-- The lines of the first program are those of the second up to label numbers. -/
theorem Tracks.exists_instrAt {instr : Instr} (h : Tracks xs ys pools next [])
    (hat : InstrAt ys line instr) : ∃ other, InstrAt xs line other ∧ SameButLabels other instr := by
  obtain ⟨hlt, rfl⟩ := List.getElem?_eq_some_iff.mp hat
  have hlt' : line < xs.length := h.length_eq ▸ hlt
  exact ⟨xs.get ⟨line, hlt'⟩, List.getElem?_eq_getElem hlt', h.lines.get hlt' hlt⟩

/-- A program with its library jumps where the other one has the labels of its jumps. -/
theorem Tracks.linked (h : Tracks xs ys pools next []) (library : Bool) (needed : List Routine) :
    Linked ys (xs ++ suffix library needed) where
  plain line instr hat hplain := by
    obtain ⟨other, hother, hsame⟩ := h.exists_instrAt hat
    cases hsame with
    | same => exact hother.append _
    | label n m => exact absurd rfl (hplain.1 m)
    | jump n m => exact absurd rfl (hplain.2 m)
  label line m hat := by
    obtain ⟨other, hother, hsame⟩ := h.exists_instrAt hat
    cases hsame with
    | same hlabel _ => exact absurd rfl (hlabel m)
    | label n => exact ⟨n, hother.append _⟩
  jump line target m hat htarget := by
    obtain ⟨other, hother, hsame⟩ := h.exists_instrAt hat
    cases hsame with
    | same _ hjump => exact absurd rfl (hjump m)
    | jump n =>
      have hjump : JumpAt (xs ++ suffix library needed) line n := hother.append _
      obtain ⟨m', place, hm', -, -, honce, hplace, -⟩ := h.userJump hother.lt hjump
      -- the label stands once in the second program, so the line of the label is that of the jump
      cases (hat.append _).unique hm'
      obtain rfl := (honce target).mp (htarget.append _)
      exact ⟨n, hjump, hplace⟩

end

/-! ### Parameters -/

/-- The code that stores parameters, the last of them first, since it is in X. -/
def prologue (registers : List Register) : List Instr :=
  registers.reverse.flatMap fun register => [.store register, .op .rollDown]

theorem mem_prologue (h : instr ∈ prologue registers) :
    (∃ register, instr = .store register) ∨ instr = .op .rollDown := by
  obtain ⟨register, -, hinstr⟩ := List.mem_flatMap.mp h
  rcases List.mem_cons.mp hinstr with rfl | hinstr
  · exact Or.inl ⟨register, rfl⟩
  · exact Or.inr (List.mem_singleton.mp hinstr)

namespace Scopes

variable {scopes scopes' : Scopes} {targets : List (Ident × Register)} {name : String}

/-- Names are bound as scalars, one after another, each to its register. -/
def BindsEach (scopes : Scopes) : List (Ident × Register) → Scopes → Prop
  | [], scopes' => scopes' = scopes
  | target :: rest, scopes' => ∃ scopes₁,
      scopes.bind target.1.name .scalar = .ok (target.2, scopes₁) ∧ scopes₁.BindsEach rest scopes'

namespace BindsEach

theorem lookup_of_ne (h : scopes.BindsEach targets scopes')
    (hname : ∀ target ∈ targets, name ≠ target.1.name) :
    scopes'.lookup name = scopes.lookup name := by
  induction targets generalizing scopes with
  | nil =>
    obtain rfl := h
    rfl
  | cons first rest ih =>
    obtain ⟨scopes₁, hbind, hrest⟩ := h
    rw [List.forall_mem_cons] at hname
    rw [ih hrest hname.2]
    exact (untouched_bind hname.1 hbind).sameAt.lookup

/-- The body of the function finds its parameters in their registers. -/
theorem lookup_eq (h : scopes.BindsEach targets scopes') (hnames : (targets.map (·.1.name)).Nodup) :
    ∀ target ∈ targets, scopes'.lookup target.1.name = some target.2 := by
  induction targets generalizing scopes with
  | nil => exact nofun
  | cons first rest ih =>
    obtain ⟨scopes₁, hbind, hrest⟩ := h
    obtain ⟨hfirst, hnames⟩ := List.nodup_cons.mp hnames
    refine List.forall_mem_cons.mpr ⟨?_, ih hrest hnames⟩
    have hlater : ∀ target ∈ rest, first.1.name ≠ target.1.name := fun target htarget heq =>
      hfirst (List.mem_map.mpr ⟨target, htarget, heq.symm⟩)
    rw [hrest.lookup_of_ne hlater, lookup_bind hbind]

section

variable (h : scopes.BindsEach targets scopes')
  (hcase : ∀ target ∈ targets, isAllUppercase target.1.name = false)

include h hcase

theorem isScalar (hscalar : scopes.IsScalar name) : scopes'.IsScalar name := by
  induction targets generalizing scopes with
  | nil => exact h ▸ hscalar
  | cons first rest ih =>
    obtain ⟨scopes₁, hbind, hrest⟩ := h
    rw [List.forall_mem_cons] at hcase
    exact ih hrest hcase.2 (hscalar.bind hbind hcase.1)

/-- In a new scope, parameters are scalars whatever their names are further out. -/
theorem isScalar_param (hplain : ∀ name, scopes.innermost.IsPlain name) :
    ∀ target ∈ targets, scopes'.IsScalar target.1.name := by
  induction targets generalizing scopes with
  | nil => exact List.forall_mem_nil _
  | cons first rest ih =>
    obtain ⟨scopes₁, hbind, hrest⟩ := h
    rw [List.forall_mem_cons] at hcase
    have hfirst := isScalar_bind_self hbind hcase.1 (hplain first.1.name)
    exact List.forall_mem_cons.mpr ⟨hrest.isScalar hcase.2 hfirst,
      ih hrest hcase.2 fun name => isPlain_bind_scalar hbind hcase.1 (hplain name)⟩

end

end BindsEach

end Scopes

/-- Parameters are bound one after another. -/
theorem Emit.bindsEach_paramRegisters {params : List Ident} {s s' : Emitter}
    {targets : List (Ident × Register)}
    (h : (paramRegisters params).run s = .ok (targets, s')) :
    targets.map Prod.fst = params ∧ s.scopes.BindsEach targets s'.scopes ∧ s'.listing = s.listing ∧
      s'.loops = s.loops := by
  induction params generalizing s targets with
  | nil =>
    cases h
    exact ⟨rfl, rfl, rfl, rfl⟩
  | cons param rest ih =>
    obtain ⟨register, s₁, hbind, h⟩ := run_bind.mp h
    obtain ⟨others, s₂, hrest, h⟩ := run_bind.mp h
    cases h
    obtain ⟨scopes, hscopes, rfl⟩ := run_withScopes.mp hbind
    obtain ⟨hidents, hbinds, hsame⟩ := ih hrest
    exact ⟨congrArg (param :: ·) hidents, ⟨scopes, hscopes, hbinds⟩, hsame⟩

/-! ### Functions -/

/-- The code of a procedure stands in a program from the line `base` on: its label, the code that
stores its parameters in their registers, and code that does what its body means. -/
structure Procedure.StandsAt (procedure : Procedure) (program : List Instr)
    (place : String → Register) (registers : List Register) (base : Nat) : Prop where
  injective : Function.Injective place
  params : registers.length = procedure.params.length ∧
    ((procedure.params.map (·.name)).Nodup →
      registers = procedure.params.map fun param => place param.name)
  label : InstrAt program base (.lbl procedure.label)
  stores : CodeAt program (base + 1) (prologue registers)
  body : Simulates program place (base + 1 + (prologue registers).length) procedure.body

variable {vars : List String}

theorem Script.Stmt.definedNames_of_areScalar (h : areScalar vars statements = true) :
    ∀ statement ∈ statements, statement.definedNames = [] := by
  induction statements with
  | nil => exact fun _ hmem => nomatch hmem
  | cons statement rest ih =>
    rw [areScalar, Bool.and_eq_true] at h
    refine List.forall_mem_cons.mpr ⟨?_, ih h.2⟩
    cases statement with
    | functionDef _ _ _ => cases h.1
    | _ => rfl

/-- Behind the code of a body that no statement leaves stands a return. -/
theorem Laid.returns_of_finishBody (h : Laid program place vars none body start t.size)
    (hlinked : Linked whole program) (hwhole : t'.listing.instrs <+: whole)
    (hfinish : finishBody.run t = .ok ((), t'))
    (hbefore : ¬ InstrAt program (start - 1) (.op .returns))
    (hleaves : ∀ s ∈ body, s.leaves = false) : InstrAt program t.size (.op .returns) := by
  rcases run_finishBody hfinish with ⟨hlast, rfl⟩ | hreturn
  -- no return was added, so there is one already, and only a statement can have written it
  · have hreturns : InstrAt program (t'.size - 1) (.op .returns) := by
      rw [List.getLast?_eq_getElem?] at hlast
      obtain ⟨rest, rfl⟩ := hwhole
      exact hlinked.plain _ _ (InstrAt.append hlast rest) (Instr.isPlain_op _)
    rcases h.last_line with rfl | hnot | ⟨s, hmem, hs⟩
    · exact absurd hreturns hbefore
    · exact absurd hreturns hnot
    · rw [hleaves s hmem] at hs
      cases hs
  · have hat : CodeAt whole t.size [.op .returns] := (emits_line hreturn).codeAt hwhole
    exact hlinked.plain _ _ hat.head (Instr.isPlain_op _)

variable {s s' : Emitter}

theorem Emit.finishBody_grows (h : finishBody.run s = .ok ((), s')) :
    s'.scopes = s.scopes ∧ s.listing.instrs <+: s'.listing.instrs := by
  rcases run_finishBody h with ⟨-, rfl⟩ | hreturn
  · exact ⟨rfl, List.prefix_rfl⟩
  · have hemits := emits_line hreturn
    exact ⟨hemits.scopes, _, hemits.instrs.symm⟩

/-- What is written before the body of a procedure: its label and the code that stores its
parameters, which are bound as scalars. -/
structure Procedure.Opens (procedure : Procedure) (bound : List (Ident × Register))
    (s s' : Emitter) : Prop where
  instrs : s'.listing.instrs =
    s.listing.instrs ++ .lbl procedure.label :: prologue (bound.map Prod.snd)
  loops : s'.loops = s.loops
  idents : bound.map Prod.fst = procedure.params
  binds : s.scopes.BindsEach bound s'.scopes

variable {labels : FunctionLabels} {procedure : Procedure}

/-- A procedure is written in three parts: its opening, its own code, and a return. -/
theorem Procedure.run_write (h : (procedure.write labels).run s = .ok ((), s')) :
    ∃ bound s₁ s₂, procedure.Opens bound s s₁ ∧
      (ownCode labels procedure.body).run s₁ = .ok ((), s₂) ∧
      finishBody.run s₂ = .ok ((), s') := by
  obtain ⟨_, t₁, hlabel, h⟩ := run_bind.mp h
  obtain ⟨bound, t₂, hregisters, h⟩ := run_bind.mp h
  obtain ⟨_, s₁, hstore, h⟩ := run_bind.mp h
  obtain ⟨⟨⟩, s₂, hcode, hfinish⟩ := run_bind.mp h
  have hlabel : Emits [.lbl procedure.label] s t₁ := by
    cases hlabel
    exact .of_emit s s.jumps
  have hstore : Emits (prologue (bound.map Prod.snd)) t₂ s₁ := by
    rw [prologue, ← List.map_reverse, List.flatMap_map]
    exact emits_storeDown _ hstore
  obtain ⟨hidents, hbinds, hlisting, hloops⟩ := bindsEach_paramRegisters hregisters
  refine ⟨bound, s₁, s₂, ⟨?_, ?_, hidents, ?_⟩, hcode, hfinish⟩
  · rw [hstore.instrs, hlisting, hlabel.instrs, List.append_assoc]
    rfl
  · rw [hstore.loops, hloops, hlabel.loops]
  · rwa [hstore.scopes, ← hlabel.scopes]

namespace Procedure.Opens

variable {procedure : Procedure} {bound : List (Ident × Register)} {s s' : Emitter}
  {whole program : List Instr}

theorem size_eq (h : procedure.Opens bound s s') :
    s'.size = s.size + 1 + (prologue (bound.map Prod.snd)).length := by
  rw [Emitter.size, h.instrs, List.length_append, List.length_cons, Emitter.size]
  omega

theorem codeAt (h : procedure.Opens bound s s') (hown : procedure.label.IsOwn)
    (hlinked : Linked whole program) (hwhole : s'.listing.instrs <+: whole) :
    CodeAt program s.size (.lbl procedure.label :: prologue (bound.map Prod.snd)) := by
  refine hlinked.codeAt (codeAt_of_instrs h.instrs hwhole) fun instr hinstr => ?_
  rcases List.mem_cons.mp hinstr with rfl | hinstr
  · exact Instr.isPlain_lbl hown
  · rcases mem_prologue hinstr with ⟨register, rfl⟩ | rfl
    · exact Instr.isPlain_of_goesOn rfl
    · exact Instr.isPlain_op _

theorem not_returns (h : procedure.Opens bound s s')
    (hat : CodeAt program s.size (.lbl procedure.label :: prologue (bound.map Prod.snd))) :
    ¬ InstrAt program (s'.size - 1) (.op .returns) := by
  intro hreturns
  obtain ⟨instr, hinstr⟩ : ∃ instr, InstrAt (.lbl procedure.label :: prologue (bound.map Prod.snd))
      (prologue (bound.map Prod.snd)).length instr :=
    ⟨_, List.getElem?_eq_getElem (by simp)⟩
  rw [h.size_eq, show s.size + 1 + (prologue (bound.map Prod.snd)).length - 1 =
    s.size + (prologue (bound.map Prod.snd)).length by omega] at hreturns
  obtain rfl := hreturns.unique (hat _ _ hinstr)
  rcases List.mem_cons.mp (List.mem_of_getElem? hinstr) with hinstr | hinstr
  · cases hinstr
  · rcases mem_prologue hinstr with ⟨register, hinstr⟩ | hinstr
    · cases hinstr
    · cases hinstr

end Procedure.Opens

theorem Procedure.standsAt_of_write (hlabels : labels.Linkable) (hown : procedure.label.IsOwn)
    (hwrite : (procedure.write labels).run t = .ok ((), t')) (hloops : t.loops = [])
    (hdistinct : t.scopes.Distinct) (hlinked : Linked whole program)
    (hwhole : t'.listing.instrs <+: whole) (hplain : ∀ name, t.scopes.innermost.IsPlain name)
    (hcase : ∀ name ∈ vars, isAllUppercase name = false)
    (hseen : ∀ name ∈ vars, name ∈ procedure.params.map (·.name) ∨ t.scopes.IsScalar name)
    (hparams : ∀ param ∈ procedure.params, param.name ∈ vars)
    (hbody : Stmt.areScalar vars procedure.body = true) :
    ∃ place registers, procedure.StandsAt program place registers t.size := by
  obtain ⟨bound, t₁, t₂, hopens, hcode, hfinish⟩ := run_write hwrite
  have hlower : ∀ target ∈ bound, isAllUppercase target.1.name = false := fun target htarget =>
    hcase _ (hparams _ (hopens.idents ▸ List.mem_map_of_mem htarget))
  rw [ownCode_eq_block (Stmt.definedNames_of_areScalar hbody)] at hcode
  have hscalar : ∀ name ∈ vars, t₁.scopes.IsScalar name := by
    intro name hname
    rcases hseen name hname with hparam | hscalar
    · rw [← hopens.idents, List.map_map] at hparam
      obtain ⟨target, htarget, rfl⟩ := List.mem_map.mp hparam
      exact hopens.binds.isScalar_param hlower hplain target htarget
    · exact hopens.binds.isScalar hlower hscalar
  -- the registers are those of the scopes behind the body, which all states before agree with
  have hlays := lays_block hcase procedure.body hbody t₁ () t₂ hscalar hcode
  obtain ⟨hscopes, hgrows⟩ := finishBody_grows hfinish
  have hplaces : Places vars t₂.scopes.place t₂.scopes := .self hlays.grows.scalar
  have hinjective : Function.Injective t₂.scopes.place := by
    have hreach := ((writes_write hlabels hown).grows hwrite).1
    exact (hscopes ▸ hdistinct.reach hreach : t₂.scopes.Distinct).place_injective
  have hnone : t₂.loops = [] := by
    have hextends := hlays.grows.loops
    rw [hopens.loops, hloops] at hextends
    exact List.forall₂_nil_left_iff.mp hextends
  have hlaid : Laid program t₂.scopes.place vars none procedure.body t₁.size t₂.size :=
    hlays.laid_size ⟨hlinked, hgrows.trans hwhole, hplaces, by rw [hnone]; trivial⟩
  have hat := hopens.codeAt hown hlinked (hlays.grows.code.trans (hgrows.trans hwhole))
  refine ⟨t₂.scopes.place, bound.map Prod.snd, hinjective, ⟨?_, fun hnodup => ?_⟩, hat.head,
    hat.tail, ?_⟩
  · rw [← hopens.idents, List.length_map, List.length_map]
  · rw [← hopens.idents, List.map_map] at hnodup ⊢
    refine List.map_congr_left fun entry hentry => ?_
    have hmem : entry.1 ∈ procedure.params := hopens.idents ▸ List.mem_map_of_mem hentry
    have hlookup := hlays.grows.kept _ _ (hopens.binds.lookup_eq hnodup entry hentry)
    exact (hplaces.place _ (hparams _ hmem) _ hlookup).symm
  · rw [← hopens.size_eq]
    exact hlaid.simulates hinjective
      (hlaid.returns_of_finishBody hlinked hwhole hfinish (hopens.not_returns hat))

/-- The form of library labels makes no difference to a procedure. -/
theorem Procedure.StandsAt.final {base : Nat}
    (h : procedure.StandsAt program place registers base) (hown : procedure.label.IsOwn)
    (hjumps : ∀ line n, JumpAt program line n → n < 50 ∨ 90 ≤ n) (localLabels : Bool) :
    procedure.StandsAt (program.map (finalInstr localLabels)) place registers base where
  injective := h.injective
  params := h.params
  label := instrAt_map.mpr ⟨_, h.label, finalInstr_lbl_of_isOwn hown⟩
  stores k instr hinstr := by
    refine instrAt_map.mpr ⟨instr, h.stores k instr hinstr, ?_⟩
    rcases mem_prologue (List.mem_of_getElem? hinstr) with ⟨register, rfl⟩ | rfl
    · exact ite_self _
    · exact ite_self _
  body V A stack registers := by
    simp only [Machine.ends_map_finalInstr hjumps]
    exact h.body V A stack registers

/-! ### Programs -/

/-- The functions of a script stand in its program, wherever they begin. -/
theorem Emit.Begins.standsAt {limit : Nat} {start : Emitter}
    (hbegins : Begins labels body s procedure start)
    (hlabels : FunctionLabels.assign body = .ok labels)
    (hentry : (entryCode labels (body.filter isEntryCode)).run
      { scopes := .ofLimit limit } = .ok ((), s))
    (hfunctions : (functions labels body).run s = .ok ((), s'))
    (hcase : ∀ name ∈ vars, isAllUppercase name = false)
    (hseen : ∀ name ∈ vars, name ∈ procedure.params.map (·.name) ∨ start.scopes.IsScalar name)
    (hparams : ∀ param ∈ procedure.params, param.name ∈ vars)
    (hbody : Stmt.areScalar vars procedure.body = true) (library localLabels : Bool)
    (needed : List Routine) :
    ∃ base place registers, procedure.StandsAt ((s'.listing.instrs ++
      suffix library needed).map (finalInstr localLabels)) place registers base := by
  have hassigned := FunctionLabels.assigned_of_assign hlabels
  -- the same code with labels that are never used twice
  obtain ⟨t, -, hal, -⟩ := composes_entryCode hassigned.own hassigned.entryOwn body _ _ s
    (.init (.ofLimit limit)) hentry
  obtain ⟨t', hfunctions', hal', -⟩ := composes_functions hassigned.own body s t s' hal hfunctions
  obtain ⟨pools, next, -, -, htracks⟩ := hal'.tracks
  obtain ⟨twin, htwin, hbegins'⟩ := hbegins.twin hassigned.own hal
  obtain ⟨last, hwrite, hwhole⟩ := hbegins'.written hassigned.own hfunctions'
  have hdistinct : start.scopes.Distinct := by
    have hreach := ((writes_entryCode hassigned.own hassigned.entryOwn _
      (Script.named_any_stmts _)).grows hentry).1
    exact (Scopes.distinct_ofLimit limit).reach (hreach.trans (hbegins.reach hassigned.own))
  have hplain : ∀ name, start.scopes.innermost.IsPlain name := by
    rw [hbegins.innermost_eq]
    exact fun _ => ⟨rfl, rfl, rfl⟩
  rw [← htwin.scopes] at hdistinct hplain hseen
  have hown := hbegins.isOwn hassigned.own
  obtain ⟨place, registers, hstands⟩ := Procedure.standsAt_of_write hassigned.own hown hwrite
    htwin.loopsSnd hdistinct (htracks.linked library needed) hwhole hplain hcase hseen hparams hbody
  refine ⟨twin.size, place, registers, hstands.final hown (fun line n hjump => ?_) localLabels⟩
  -- the jumps do not go to labels that can be local
  rcases Nat.lt_or_ge line s'.listing.instrs.length with hline | hline
  · obtain ⟨-, -, -, hn, -⟩ := htracks.userJump hline hjump
    exact Or.inl hn
  · exact Or.inr (Routine.libraryJump (fun _ _ => htracks.label_lt) hline hjump).2.1

/-- A scalar function does what it means. Every function of a source text that compiles begins in
some scopes. If its variables are parameters, or scalars there, or not known yet, then its label
stands in the program, followed by code that stores its parameters, and from there on the machine
does what the body of the function means. -/
theorem scalar_functions_simulated {text : String} {options : Options} {final : Listing}
    {body : List Stmt} {labels : FunctionLabels} {procedure : Procedure}
    (h : compile text options = .ok final)
    (hbody : Script.ofSource (SourceText.ofString text) = .ok body)
    (hlabels : FunctionLabels.assign body = .ok labels)
    (hmem : procedure ∈ Script.functionProcedures labels body) :
    (∃ scopes, procedure.BeginsIn text options scopes) ∧
      ∀ (scopes : Scopes) (vars : List String), procedure.BeginsIn text options scopes →
        (∀ name ∈ vars, isAllUppercase name = false) →
        (∀ name ∈ vars, name ∈ procedure.params.map (·.name) ∨ scopes.IsScalar name) →
        (∀ param ∈ procedure.params, param.name ∈ vars) →
        Stmt.areScalar vars procedure.body = true →
        ∃ base place registers, procedure.StandsAt final.instrs place registers base := by
  obtain ⟨body', labels', user, hbody', hlabels', huser, rfl⟩ := compile_eq_ok.mp h
  cases hbody.symm.trans hbody'
  cases hlabels.symm.trans hlabels'
  obtain ⟨⟨⟩, s', hrun, rfl⟩ := ofScript_eq_ok.mp huser
  obtain ⟨⟨⟩, s, hentry, hfunctions⟩ := Emit.run_bind.mp hrun
  refine ⟨?_, fun scopes vars hbegins hcase hseen hparams hscalar => ?_⟩
  · obtain ⟨start, hbegins⟩ := Emit.exists_begins body hmem s s' hfunctions
    exact ⟨start.scopes, body, labels, s, start, hbody, hlabels, hentry, hbegins, rfl⟩
  · obtain ⟨body', labels', s₁, start, hbody', hlabels', hentry', hbegins, rfl⟩ := hbegins
    -- each pass has one result, so the function begins in the run that gave the program
    cases hbody.symm.trans hbody'
    cases hlabels.symm.trans hlabels'
    cases hentry.symm.trans hentry'
    rw [Listing.instrs_final]
    exact hbegins.standsAt hlabels hentry hfunctions hcase hseen hparams hscalar _ _ _

/-- Whether a module is one scalar function, with given names of parameters and variables. -/
def Script.isScalarFunction (params vars : List String) : List Stmt → Bool
  | [.functionDef _ header body] =>
    header.params.map (·.name) == params && Stmt.areScalar vars body
  | _ => false

theorem Script.exists_of_isScalarFunction {params : List String}
    (h : isScalarFunction params vars statements = true) :
    ∃ offset header body, statements = [.functionDef offset header body] ∧
      header.params.map (·.name) = params ∧ Stmt.areScalar vars body = true := by
  unfold isScalarFunction at h
  split at h
  · rename_i offset header body
    rw [Bool.and_eq_true, beq_iff_eq] at h
    exact ⟨offset, header, body, rfl, h⟩
  · cases h

/-- A function that adds up the numbers from a digit down to one. -/
def totalText : String :=
  "def total(n):\n  k = 0\n  while True:\n    if 0 < n <= 9:\n      k += n\n    else:\n" ++
    "      break\n    n -= 1\n    continue\n  return k\n"

/-- Its program does so from the line after its parameter has been stored. -/
theorem scalar_functions_simulated_total :
    ∃ (final : Listing) (procedure : Procedure) (base : Nat) (place : String → Register)
      (registers : List Register), compile totalText {} = .ok final ∧
      procedure.params.map (·.name) = ["n"] ∧
      Stmt.areScalar ["n", "k"] procedure.body = true ∧
      procedure.StandsAt final.instrs place registers base := by
  have hcompiles : (compile totalText {}).toOption.any (fun _ => true) = true := by decide +kernel
  have hsource : (Script.ofSource (SourceText.ofString totalText)).toOption.any (fun body =>
      Script.isScalarFunction ["n"] ["n", "k"] body = true ∧
        (FunctionLabels.assign body).toOption.any (·.entry = none) = true) = true := by
    decide +kernel
  obtain ⟨final, hfinal, -⟩ := exists_ok_of_any hcompiles
  obtain ⟨body, labels, -, hbody, hlabels, -, -⟩ := compile_eq_ok.mp hfinal
  rw [hbody] at hsource
  obtain ⟨hfunction, hassigned⟩ := of_decide_eq_true hsource
  obtain ⟨offset, header, statements, rfl, hparams, hscalar⟩ :=
    Script.exists_of_isScalarFunction hfunction
  rw [hlabels] at hassigned
  have hentry : labels.entry = none := of_decide_eq_true hassigned
  have hhas : labels.has header.name.name = true :=
    ((FunctionLabels.assigned_of_assign hlabels).has_iff _).mpr List.mem_cons_self
  obtain ⟨label, hlabel⟩ := FunctionLabels.exists_get? hhas
  have hmem : ⟨label, header.signature, header.params, statements⟩ ∈
      Script.functionProcedures labels [.functionDef offset header statements] := by
    simp [Script.functionProcedures, Stmt.procedures, hlabel]
  have hnames : ∀ param ∈ header.params, param.name ∈ ["n", "k"] := by
    intro param hparam
    have hname : param.name ∈ ["n"] := hparams ▸ List.mem_map_of_mem hparam
    exact List.mem_cons.mpr (Or.inl (List.mem_singleton.mp hname))
  have hbegins :
      Procedure.BeginsIn totalText {} ⟨label, header.signature, header.params, statements⟩
      (Scopes.ofLimit 100).push := by
    refine ⟨_, labels, { scopes := .ofLimit 100 }, _, hbody, hlabels, ?_, .here hlabel, rfl⟩
    -- there is no code outside the function
    show (Emit.entryCode labels []).run _ = _
    unfold Emit.entryCode
    rw [hentry]
    rfl
  obtain ⟨base, place, registers, hstands⟩ :=
    (scalar_functions_simulated hfinal hbody hlabels hmem).2 _ ["n", "k"] hbegins (by decide)
      (fun _ _ => Or.inr ⟨rfl, rfl, rfl, by rintro _ ⟨⟩⟩) hnames hscalar
  exact ⟨final, _, base, place, registers, hfinal, hparams, hscalar, hstands⟩

end Keystroke
