import Keystroke.Proofs.FlowDiscipline
import Keystroke.Proofs.JumpPools
import Keystroke.Proofs.SoundScopes

/-!
# The steps of a compilation

A compilation is a long sequence of small steps: it writes a line, hands out a label, enters or
leaves a function, or changes the scopes for one name. Here every action of the compiler is taken
apart into such steps once and for all. A property that each step keeps then holds in every state
that a compilation passes through.
-/

namespace Keystroke

open Script (Expr Ident Stmt)
open Emit

namespace Emit

variable {labels : FunctionLabels} {α β : Type}

/-- Which steps an action may take. -/
structure Permit where
  /-- The names that may be bound to a register. -/
  known : String → Prop
  /-- The names that the action itself may store to. -/
  stores : String → Prop
  known_of_stores : ∀ name, stores name → known name
  /-- Whether the action may assign to variables, and make a name a list, a dictionary or an
  alias. -/
  declares : Prop
  /-- Whether the action may enter and leave functions. -/
  nests : Prop
  /-- What the script is made of: the texts that the action may write, and where it may fail. -/
  words : Vocabulary

/-- A register that an action may work on: it has a number, or is the variable of a known name, or
is named by a text. -/
def Permit.Allows (permit : Permit) : Register → Prop
  | .numbered _ => True
  | .named name => Register.IsVariable permit.known (.named name) ∨ permit.words.text name

variable {permit : Permit}

theorem Permit.allows_of_text (h : ∀ text, permit.words.text text) (register : Register) :
    permit.Allows register := by
  cases register with
  | numbered => exact trivial
  | named name => exact Or.inr (h name)

variable {register : Register} {name : String}

theorem Permit.allows_of_isVariable
    (h : register.IsVariable permit.known) : permit.Allows register := by
  obtain ⟨name, hname, rfl⟩ := h
  exact Or.inl ⟨name, hname, rfl⟩

theorem Permit.allows_of_getRegister {scopes : Scopes} (hs : scopes.Sound permit.known)
    (h : scopes.getRegister name = .ok register) : permit.Allows register := by
  cases register with
  | numbered => exact trivial
  | named => exact allows_of_isVariable (hs.isVariable_of_getRegister h rfl)

/-- An instruction that an action may write, as a line with a comment or without. Stores to
variables have a comment. -/
def Permit.Writes (permit : Permit) (comment : Option String) : Instr → Prop
  | .memory o (.register register) =>
    permit.Allows register ∧ (o = .store ∨ o = .storeAlpha → permit.declares ∧ comment ≠ none)
  | .memory _ (.indirect _) => False
  | .alpha piece | .alphaAppend piece => ∃ text, permit.words.text text ∧ piece ∈ alphaPieces text
  | _ => True

theorem Permit.writes_of_isInert {instr : Instr} {kind : LineKind}
    (h : instr.IsInert permit.words kind) : permit.Writes none instr := by
  cases instr with
  | memory o operand =>
    cases operand with
    | stack level => exact trivial
    | _ => cases kind <;> exact h.elim
  | alpha | alphaAppend =>
    cases kind with
    | plain => exact h.elim
    | string => exact h
  | _ => exact trivial

theorem Permit.writes_memory {o : MemoryOp}
    {comment : Option String} (ho : o.isPlain = true) (h : permit.Allows register) :
    permit.Writes comment (.memory o (.register register)) := by
  refine ⟨h, ?_⟩
  rintro (rfl | rfl) <;> cases ho

/-- Enters a function: opens its scope, places its label and binds its parameters. -/
def enter (label : Label) (signature : String) (params : List Ident) :
    Emit (List (Ident × Register)) := do
  modify fun emitter => { emitter with loops := [], scopes := emitter.scopes.push }
  commented (.lbl label) signature
  paramRegisters params

/-- An action that is made of permitted steps. What comes after a step may depend on the value that
the step gives in sound scopes. -/
inductive Permitted (permit : Permit) : {α : Type} → Emit α → Prop where
  | pure {α : Type} (a : α) : Permitted permit (Pure.pure a : Emit α)
  | fail {α : Type} (fault : Fault) {start : Position} (hplace : permit.words.place start) :
      Permitted permit (Emit.fail fault start : Emit α)
  | state : Permitted permit (get : Emit Emitter)
  | bind_of {α β : Type} {m : Emit α} {f : α → Emit β} (hm : Permitted permit m)
      (hf : ∀ s a s', s.scopes.Sound permit.known → m.run s = .ok (a, s') →
        Permitted permit (f a)) :
      Permitted permit (m >>= f)
  | emitted {instr : Instr} {comment : Option String} (h : permit.Writes comment instr) :
      Permitted permit (modifyListing (·.emit instr comment instr.kind))
  | call (routine : Routine) : Permitted permit (Emit.call routine)
  | selectContainer {register : Register} (h : register.IsVariable permit.known) :
      Permitted permit (Emit.selectContainer register)
  | declare {name : String} {info : VarInfo} {start : Position} (hdeclares : permit.declares)
      (hname : permit.stores name) (hinfo : info = .list ∨ info = .dict)
      (hplace : permit.words.place start) : Permitted permit (Emit.bind name info start)
  | storeRegister {name : String} {info : VarInfo} {start : Position} (hname : permit.stores name)
      (hforced : ∀ forced, info.forcedName = some forced → forced = name)
      (hplace : permit.words.place start) : Permitted permit (Emit.storeRegister name info start)
  | share {name : String} (target : String) {start : Position} (hdeclares : permit.declares)
      (hname : permit.stores name) (hplace : permit.words.place start) : Permitted permit
        (withScopes (fun scopes => return ((), ← scopes.bindAlias name target)) start)
  | anonymous {start : Position} (hplace : permit.words.place start) :
      Permitted permit (Emit.anonymous start)
  | withJumps {α : Type} (step : LabelSupply → Except JumpPool (α × LabelSupply)) {start : Position}
      (hplace : permit.words.place start)
      (hstep : ∀ {jumps a jumps'}, step jumps = .ok (a, jumps') → jumps.IsPool → jumps'.IsPool) :
      Permitted permit (Emit.withJumps step start)
  | control {f : Emitter → Emitter} (hlisting : ∀ s, (f s).listing = s.listing)
      (hscopes : ∀ s, (f s).scopes = s.scopes) (hjumps : ∀ s, s.jumps.IsPool → (f s).jumps.IsPool) :
      Permitted permit (modify f : Emit Unit)
  | enter (label : Label) (signature : String) {params : List Ident} (hnests : permit.nests)
      (hparams : ∀ param ∈ params, permit.known param.name ∧ permit.words.place param.start) :
      Permitted permit (Emit.enter label signature params)
  | leave (loops : List Loop) (hnests : permit.nests) : Permitted permit
      (modify fun emitter => { emitter with loops, scopes := emitter.scopes.pop } : Emit Unit)

namespace Permitted

variable {permit : Permit} {m : Emit α}

/-! ### Composition -/

theorem bind {f : α → Emit β} (hm : Permitted permit m) (hf : ∀ a, Permitted permit (f a)) :
    Permitted permit (m >>= f) :=
  bind_of hm fun _ a _ _ _ => hf a

theorem ite {c : Prop} [Decidable c] {n : Emit α} (hm : Permitted permit m)
    (hn : Permitted permit n) : Permitted permit (if c then m else n) := by
  split
  · exact hm
  · exact hn

theorem get_bind {f : Emitter → Emit α} (hf : ∀ s, Permitted permit (f s)) :
    Permitted permit (get >>= f) :=
  bind state hf

theorem op (o : Op) : Permitted permit (op o) :=
  emitted trivial

theorem store {register : Register} (comment : String) (alpha : Bool) (hdeclares : permit.declares)
    (h : permit.Allows register) : Permitted permit (store register comment alpha) := by
  cases alpha <;> exact emitted ⟨h, fun _ => ⟨hdeclares, nofun⟩⟩

theorem lastIsString : Permitted permit lastIsString :=
  get_bind fun _ => pure _

theorem finishBody : Permitted permit finishBody :=
  get_bind fun _ => ite (pure _) (op _)

/-! ### Jumps -/

theorem jump (label : Nat) : Permitted permit (jump label) :=
  emitted trivial

theorem place (label : Nat) : Permitted permit (place label) :=
  emitted trivial

theorem placeSkip (label : Nat) : Permitted permit (placeSkip label) :=
  bind (place label) fun _ => control (fun _ => rfl) (fun _ => rfl) fun _ h => h.release label

/-! ### Variables -/

theorem registerOf {start : Position} (name : String) (hplace : permit.words.place start) :
    Permitted permit (registerOf name start) := by
  refine get_bind fun s => ?_
  cases s.scopes.getRegister name with
  | ok a => exact pure a
  | error e => exact fail _ hplace

/-! ### Containers -/

theorem containerOf {id : Ident} (hplace : permit.words.place id.start) :
    Permitted permit (containerOf id) := by
  refine bind (registerOf _ hplace) fun register => get_bind fun s => ?_
  dsimp only
  split
  · exact pure _
  · exact ite (pure _) (fail _ hplace)

end Permitted

variable {known : String → Prop} {s s' : Emitter}

theorem isVariable_of_containerOf {id : Ident} {kind : Container} (hs : s.scopes.Sound known)
    (hrun : (containerOf id).run s = .ok ((register, kind), s')) : register.IsVariable known := by
  obtain ⟨hregister, -, hkind | ⟨-, -, hnamed⟩⟩ := run_containerOf hrun
  · exact hs.isVariable_of_container hkind hregister
  · exact hs.isVariable_of_getRegister hregister hnamed

theorem isVariable_of_declare {info : VarInfo} {start : Position} (hname : known name)
    (hinfo : info = .list ∨ info = .dict)
    (h : (bind name info start).run s = .ok (register, s')) : register.IsVariable known := by
  obtain ⟨scopes, hbind, -⟩ := run_withScopes.mp h
  rw [Scopes.bind, Scopes.namedRegister?_of_declared hinfo] at hbind
  cases hbind
  exact ⟨name, hname, rfl⟩

theorem isVariable_of_sourceOf {id : Ident} (hs : s.scopes.Sound known)
    (hrun : (sourceOf id).run s = .ok (register, s')) : register.IsVariable known := by
  unfold sourceOf at hrun
  rw [run_get_bind] at hrun
  split at hrun
  iterate 2 exact hs.isVariable_of_container ‹_› (run_registerOf_eq_ok.mp hrun).1
  · cases hrun

namespace Permitted

variable {permit : Permit}

theorem loopBody (loop : Loop) {body : Emit Unit} (hbody : Permitted permit body) :
    Permitted permit (loopBody loop body) := by
  refine bind (control (fun _ => rfl) (fun _ => rfl) fun _ => id) fun _ => bind hbody fun _ =>
    get_bind fun s => ?_
  split
  · exact pure _
  · exact bind (control (fun _ => rfl) (fun _ => rfl) fun _ => id) fun _ => pure _

theorem sourceOf {id : Ident} (hplace : permit.words.place id.start) :
    Permitted permit (sourceOf id) := by
  refine get_bind fun s => ?_
  split
  iterate 2 exact registerOf _ hplace
  · exact fail _ hplace

end Permitted

section

variable {permit : Permit} {names : List Expr} {start : Position} {header : Script.FunctionHeader}
  {body nested : Emit Unit}

theorem permitted_unpackedRegisters (h : ∀ name ∈ names.flatMap Expr.ownName, permit.stores name)
    (hnamed : ∀ e ∈ names, e.Named permit.words) : Permitted permit (unpackedRegisters names) := by
  induction names with
  | nil => exact .pure _
  | cons target rest ih =>
    rw [List.flatMap_cons, List.forall_mem_append] at h
    rw [List.forall_mem_cons] at hnamed
    have hplace : permit.words.place target.start := hnamed.1.place
    unfold unpackedRegisters
    split
    · exact .pure _
    · rename_i heq
      cases heq
      exact .bind (.storeRegister (h.1 _ (by simp [Expr.ownName])) nofun hplace) fun _ =>
        .bind (ih h.2 hnamed.2) fun _ => .pure _
    · rename_i heq
      cases heq
      exact .fail _ hplace

variable {registers : List (Ident × Register)}

theorem permitted_storeDown (hdeclares : permit.declares)
    (h : ∀ entry ∈ registers, permit.Allows entry.2) : Permitted permit (storeDown registers) := by
  induction registers with
  | nil => exact .pure _
  | cons entry rest ih =>
    rw [List.forall_mem_cons] at h
    exact .bind (.store _ _ hdeclares h.1) fun _ => .bind (.op _) fun _ => ih h.2

variable {name : String} {info : VarInfo} {register : Register}

/-- A name is bound to its variable or a number. -/
theorem allows_of_bind {scopes scopes' : Scopes}
    (hname : permit.known name) (hforced : ∀ forced, info.forcedName = some forced → forced = name)
    (h : scopes.bind name info = .ok (register, scopes')) : permit.Allows register := by
  rcases Scopes.bind_inv h with ⟨hnamed, -⟩ | ⟨-, -, rfl, -⟩
  · rw [Scopes.namedRegister?_eq_some hforced hnamed]
    exact Or.inl ⟨name, hname, rfl⟩
  · exact trivial

variable {s s' : Emitter}

/-- A variable that is stored to is known, unless it has a number. -/
theorem allows_of_storeRegister (hname : permit.stores name)
    (hforced : ∀ forced, info.forcedName = some forced → forced = name)
    (hs : s.scopes.Sound permit.known)
    (hrun : (storeRegister name info start).run s = .ok (register, s')) :
    permit.Allows register := by
  obtain ⟨scopes, hstore, -⟩ := run_withScopes.mp hrun
  rcases Scopes.storeRegister_eq_ok hstore with ⟨-, hbind⟩ | ⟨-, hget, -⟩
  · exact allows_of_bind (permit.known_of_stores _ hname) hforced hbind
  · exact Permit.allows_of_getRegister hs.dropAlias hget

theorem allows_of_unpackedRegisters (h : ∀ name ∈ names.flatMap Expr.ownName, permit.stores name)
    (hs : s.scopes.Sound permit.known)
    (hrun : (unpackedRegisters names).run s = .ok (registers, s')) :
    ∀ entry ∈ registers, permit.Allows entry.2 := by
  induction names generalizing s registers with
  | nil =>
    cases hrun
    exact nofun
  | cons target rest ih =>
    rw [List.flatMap_cons, List.forall_mem_append] at h
    cases target with
    | name id =>
      have hname := h.1 _ (List.mem_singleton_self _)
      obtain ⟨register, s₁, hfirst, hrun⟩ := run_bind.mp hrun
      obtain ⟨others, s₂, hrest, hrun⟩ := run_bind.mp hrun
      cases hrun
      obtain ⟨scopes, hstore, hs₁⟩ := run_withScopes.mp hfirst
      refine List.forall_mem_cons.mpr
        ⟨allows_of_storeRegister hname (by rintro _ ⟨⟩) hs hfirst, ih h.2 ?_ hrest⟩
      rw [hs₁]
      exact hs.storeRegister (permit.known_of_stores _ hname) (by rintro _ ⟨⟩) hstore
    | _ => cases hrun

theorem allows_of_paramRegisters {params : List Ident}
    (h : ∀ param ∈ params, permit.known param.name)
    (hrun : (paramRegisters params).run s = .ok (registers, s')) :
    ∀ entry ∈ registers, permit.Allows entry.2 := by
  induction params generalizing s registers with
  | nil =>
    cases hrun
    exact nofun
  | cons param rest ih =>
    rw [List.forall_mem_cons] at h
    obtain ⟨register, s₁, hfirst, hrun⟩ := run_bind.mp hrun
    obtain ⟨others, s₂, hrest, hrun⟩ := run_bind.mp hrun
    cases hrun
    obtain ⟨scopes, hbind, -⟩ := run_withScopes.mp hfirst
    refine List.forall_mem_cons.mpr ⟨allows_of_bind h.1 (by rintro _ ⟨⟩) hbind, ih h.2 hrest⟩

/-! ### Expressions and statements -/

def Permit.facts (permit : Permit) : Facts
  | .container register => register.IsVariable permit.known
  | .usable register | .granted register => permit.Allows register
  | .label _ => True

/-- How permitted actions follow each other. -/
def Permit.logic (permit : Permit) : Logic :=
  .through permit.words (Permitted permit) permit.facts (fun _ => .fail _) fun _ => .get_bind

variable {m : Emit α} {known : Facts} {Q : α → Facts → Prop}

theorem Permitted.holds (hm : Permitted permit m)
    (hQ : ∀ a, Q a permit.facts) : permit.logic.Holds known m Q :=
  fun _ _ _ hk => hm.bind fun a => hk a (hQ a)

theorem Permitted.holds_of (hm : Permitted permit m)
    (hQ : ∀ s a s', s.scopes.Sound permit.known → m.run s = .ok (a, s') → Q a permit.facts) :
    permit.logic.Holds known m Q :=
  fun _ _ _ hk => .bind_of hm fun s a s' hs hrun => hk a (hQ s a s' hs hrun)

theorem Permitted.of_holds (h : permit.logic.Holds (fun _ => False) m Q) : Permitted permit m := by
  have := h nofun Pure.pure fun a _ => .pure a
  rwa [bind_pure] at this

theorem Permit.container_facts (h : register.IsVariable permit.known) :
    permit.facts (.usable register) ∧ permit.facts (.container register) :=
  ⟨allows_of_isVariable h, h⟩

theorem permitted_storeRegister (hname : permit.stores name)
    (hforced : ∀ forced, info.forcedName = some forced → forced = name)
    (hplace : permit.words.place start) : permit.logic.Holds known (storeRegister name info start)
      fun register later => later (.usable register) :=
  (Permitted.storeRegister hname hforced hplace).holds_of fun _ _ _ hs hrun =>
    allows_of_storeRegister hname hforced hs hrun

/-- What permitted actions keep to. -/
def Permit.discipline (labels : FunctionLabels) (permit : Permit) : FlowDiscipline labels where
  toLogic := permit.logic
  stores := permit.stores
  declares _ := permit.declares
  lastIsString := Permitted.lastIsString.holds fun _ => trivial
  line h := by
    obtain rfl := h.kind_eq
    exact (Permitted.emitted (Permit.writes_of_isInert h)).holds fun _ => trivial
  memory _ ho h hknown _ _ hk :=
    .bind (.emitted (Permit.writes_memory ho (hknown _ h))) fun _ => hk () trivial
  call routine := (Permitted.call routine).holds fun _ => trivial
  callOwn _ := Permitted.holds (.emitted trivial) fun _ => trivial
  named h _ _ _ hk := by
    rw [pure_bind]
    exact hk _ (Or.inr h)
  registerOf _ _ hplace := (Permitted.registerOf _ hplace).holds_of fun _ _ _ hs hrun =>
    Permit.allows_of_getRegister hs (run_registerOf_eq_ok.mp hrun).1
  containerOf hplace := (Permitted.containerOf hplace).holds_of fun _ _ _ hs hrun =>
    Permit.container_facts (isVariable_of_containerOf hs hrun)
  selectContainer h hknown _ _ hk := .bind (.selectContainer (hknown _ h)) fun _ => hk () trivial
  declare hdeclares hname hinfo hplace := (Permitted.declare hdeclares hname hinfo hplace).holds_of
    fun _ _ _ _ hrun =>
      Permit.container_facts (isVariable_of_declare (permit.known_of_stores _ hname) hinfo hrun)
  share _ _ hdeclares hname hplace :=
    Permitted.holds (.share _ hdeclares hname hplace) fun _ => trivial
  storeNamed hname hforced _ hplace := permitted_storeRegister hname hforced hplace
  assigned hdeclares hname hforced hplace := Logic.assigned
    (permitted_storeRegister hname (by simp [hforced]) hplace)
    fun _ _ h hknown _ _ hk => .bind (.store _ _ hdeclares (hknown _ h)) fun _ => hk () trivial
  unpacked hdeclares h hnamed := Permitted.holds (.bind_of (permitted_unpackedRegisters h hnamed)
    fun _ _ _ hs hrun => permitted_storeDown hdeclares fun entry hentry =>
      allows_of_unpackedRegisters h hs hrun entry (List.mem_reverse.mp hentry)) fun _ => trivial
  store hdeclares h hknown _ _ hk :=
    .bind (.store _ _ hdeclares (hknown _ h)) fun _ => hk () trivial
  sourceOf hplace := (Permitted.sourceOf hplace).holds_of fun _ _ _ hs hrun =>
    Permit.container_facts (isVariable_of_sourceOf hs hrun)
  anonymous hplace := (Permitted.anonymous hplace).holds_of fun _ _ _ _ hrun => by
    obtain ⟨_, hallocate, -⟩ := run_withScopes.mp hrun
    obtain ⟨-, rfl, -⟩ := Scopes.allocate_eq_ok.mp hallocate
    exact trivial
  fill hdeclares h hknown _ _ hk :=
    .bind (.store _ _ hdeclares (hknown _ h)) fun _ => hk () (hknown (.granted _) h)
  skipLabel hplace := Permitted.holds (.withJumps _ hplace .takeSkip) fun _ => trivial
  loopLabel hplace := Permitted.holds (.withJumps _ hplace .takeLoop) fun _ => trivial
  place n := (Permitted.place n).holds fun _ => trivial
  placeSkip _ := (Permitted.placeSkip _).holds fun _ => trivial
  jump _ := (Permitted.jump _).holds fun _ => trivial
  test hinstr _ hknown _ k hk := by
    rw [bind_assoc]
    refine .bind ?_ fun _ => .bind (.jump _) fun _ => hk () trivial
    cases hinstr with
    | op => exact .emitted trivial
    | counter h => exact .emitted ⟨hknown _ h, by simp⟩
  returns := Permitted.holds (.op _) fun _ => trivial
  loopBody _ hbody := Permitted.holds (.loopBody _ (.of_holds (hbody _))) fun _ => .trivial
  setLoop _ := Permitted.holds (.control (fun _ => rfl) (fun _ => rfl) fun _ => id) fun _ => trivial
  loops _ hf hknown _ k hk := by
    rw [bind_assoc]
    exact .get_bind fun s => hf s _ hknown (fun _ _ => .trivial) (fun _ => id) k hk

theorem Permitted.of_tame (h : (permit.discipline labels).Tame m) : Permitted permit m :=
  .of_holds (h _)

/-- Expressions are made of permitted steps, if the names may be stored to that their inputs and
dimensions store to. -/
theorem permitted_expr {e : Expr} (hnamed : e.Named permit.words)
    (h : ∀ name ∈ e.storedNames, permit.stores name) : Permitted permit (expr labels e) :=
  .of_tame (Discipline.tame_expr hnamed h)

theorem permitted_stmt (hdeclares : permit.declares) {s : Stmt} (hnamed : s.Named permit.words)
    (h : ∀ name ∈ s.storedNames, permit.stores name) : Permitted permit (stmt labels s) :=
  .of_tame (FlowDiscipline.tame_stmt (.of_declares fun _ => hdeclares) s hnamed h)

/-! ### Functions -/

/-- A function opens its scope and binds its parameters before anything else. -/
theorem function_eq_enter {label : Label} (hlabel : labels.get? header.name.name = some label) :
    function labels header body nested = (do
      let loops := (← get).loops
      let registers ← enter label header.signature header.params
      storeDown registers.reverse
      body
      finishBody
      nested
      modify fun emitter => { emitter with loops, scopes := emitter.scopes.pop }) := by
  rw [function_eq, hlabel]
  simp only [enter, bind_assoc]

theorem permitted_function (hdeclares : permit.declares) (hnests : permit.nests)
    (hplace : permit.words.place header.name.start)
    (hparams : ∀ param ∈ header.params, permit.stores param.name ∧ permit.words.place param.start)
    (hbody : Permitted permit body)
    (hnested : Permitted permit nested) :
    Permitted permit (function labels header body nested) := by
  cases hlabel : labels.get? header.name.name with
  | none =>
    rw [function_eq, hlabel]
    exact .fail _ hplace
  | some label =>
    have hknown : ∀ param ∈ header.params, permit.known param.name ∧
        permit.words.place param.start :=
      fun param hparam => (hparams param hparam).imp_left (permit.known_of_stores _)
    rw [function_eq_enter hlabel]
    refine .get_bind fun s => .bind_of (.enter _ _ hnests hknown) fun _ registers _ _ hrun =>
      .bind (permitted_storeDown hdeclares fun entry hentry => ?_) fun _ => .bind hbody fun _ =>
      .bind .finishBody fun _ => .bind hnested fun _ => .leave _ hnests
    exact allows_of_paramRegisters (fun param hparam => (hknown param hparam).1) hrun entry
      (List.mem_reverse.mp hentry)

section

variable {body : List Stmt} (hdeclares : permit.declares)
  (hnamed : ∀ s ∈ body, s.Named permit.words)
  (h : ∀ name ∈ Script.storedNames body, permit.stores name)

include hdeclares hnamed h

theorem permitted_block : Permitted permit (block labels body) :=
  .of_tame (FlowDiscipline.tame_block (.of_declares fun _ => hdeclares) body hnamed h)

theorem permitted_ownCode : Permitted permit (ownCode labels body) :=
  .of_tame (FlowDiscipline.tame_ownCode (.of_declares fun _ => hdeclares) hnamed h)

theorem permitted_functions (hnests : permit.nests) : Permitted permit (functions labels body) := by
  induction body using Script.functions_induction with
  | nil => exact .pure _
  | other s rest hnot ih =>
    rw [List.forall_mem_cons] at hnamed
    rw [Script.storedNames, List.forall_mem_append] at h
    simpa [functions, definedFunction] using ih hnamed.2 h.2
  | functionDef start header body rest hbody hrest =>
    rw [List.forall_mem_cons] at hnamed
    rw [Script.storedNames, List.forall_mem_append, Stmt.storedNames, List.forall_mem_append,
      List.forall_mem_map] at h
    cases hnamed.1 with
    | functionDef _ hname hparams hinside =>
      exact .bind (permitted_function hdeclares hnests hname.place
        (fun param hparam => ⟨h.1.1 param hparam, (hparams param hparam).place⟩)
        (permitted_ownCode hdeclares hinside h.1.2) (hbody hinside h.1.2)) fun _ =>
        hrest hnamed.2 h.2

theorem permitted_entryCode : Permitted permit (entryCode labels body) := by
  unfold entryCode
  split
  · exact .bind (.emitted trivial) fun _ => .bind (permitted_block hdeclares hnamed h)
      fun _ => .finishBody
  · split
    · exact .pure _
    · exact .fail _ (hnamed _ List.mem_cons_self).place

/-- A module is made of permitted steps, if the names may be stored to that it stores to. -/
theorem permitted_program (hnests : permit.nests) : Permitted permit (program labels body) := by
  refine .bind (permitted_entryCode hdeclares (fun s hs => hnamed s (List.mem_of_mem_filter hs)) ?_)
    fun _ => permitted_functions hdeclares hnamed h hnests
  rw [Script.forall_storedNames] at h ⊢
  exact fun s hs => h s (List.mem_of_mem_filter hs)

end

end

end Emit

end Keystroke
