import Keystroke.Proofs.ContainerFocus
import Keystroke.Proofs.PermittedCode

/-!
# The states that a compilation passes through

Every run of a permitted action is a path of small steps, each with the conditions under which the
compiler takes it. What a step keeps therefore holds in every state on the way, also when the
compilation fails later on.
-/

namespace Keystroke

open Script (Expr Ident Stmt)

variable {permit : Emit.Permit}

/-- One step of a compilation. -/
inductive Emitter.Step (permit : Emit.Permit) : Emitter → Emitter → Prop where
  | write (s : Emitter) {instr : Instr} {comment : Option String}
      (h : permit.Writes comment instr) :
      Step permit s { s with listing := s.listing.emit instr comment instr.kind }
  | call (s : Emitter) (routine : Routine) :
      Step permit s { s with listing := s.listing.callRoutine routine }
  | select (s : Emitter) {register : Register} (h : register.IsVariable permit.known) :
      Step permit s { s with listing :=
        (s.listing.emit (.alpha register.nameOrEmpty) none .string).emit selectionLine }
  | declare {s : Emitter} {name : String} {info : VarInfo} {register : Register} {scopes : Scopes}
      (hdeclares : permit.declares) (hname : permit.stores name)
      (hinfo : info = .list ∨ info = .dict)
      (h : s.scopes.bind name info = .ok (register, scopes)) : Step permit s { s with scopes }
  | store {s : Emitter} {name : String} {info : VarInfo} {register : Register} {scopes : Scopes}
      (hname : permit.stores name)
      (hforced : ∀ forced, info.forcedName = some forced → forced = name)
      (h : s.scopes.storeRegister name info = .ok (register, scopes)) :
      Step permit s { s with scopes }
  | share {s : Emitter} {name target : String} {scopes : Scopes} (hdeclares : permit.declares)
      (hname : permit.stores name) (h : s.scopes.bindAlias name target = .ok scopes) :
      Step permit s { s with scopes }
  | allocate {s : Emitter} {register : Register} {scopes : Scopes}
      (h : s.scopes.allocate = .ok (register, scopes)) : Step permit s { s with scopes }
  | push (s : Emitter) (hnests : permit.nests) : Step permit s { s with scopes := s.scopes.push }
  | param {s : Emitter} {name : String} {register : Register} {scopes : Scopes}
      (hnests : permit.nests) (hname : permit.known name)
      (hfresh : ∀ other, ¬ s.scopes.innermost.Marks other)
      (h : s.scopes.bind name .scalar = .ok (register, scopes)) : Step permit s { s with scopes }
  | pop (s : Emitter) (hnests : permit.nests) : Step permit s { s with scopes := s.scopes.pop }
  | control {s s' : Emitter} (hlisting : s'.listing = s.listing) (hscopes : s'.scopes = s.scopes)
      (hjumps : s.jumps.IsPool → s'.jumps.IsPool) : Step permit s s'

/-- A line that a step of a compilation may add. -/
def Emit.Permit.Adds (permit : Emit.Permit) (line : Line) : Prop :=
  line.kind = line.instr.kind ∧ (permit.Writes line.comment line.instr ∨
    (∃ register, Register.IsVariable permit.known register ∧
      line = ⟨.alpha register.nameOrEmpty, none, .string⟩) ∨ line = { instr := selectionLine })

/-- A path of steps of a compilation. -/
def Emitter.Steps (permit : Emit.Permit) : Emitter → Emitter → Prop :=
  Relation.ReflTransGen (Emitter.Step permit)

namespace Emitter

variable {s s' : Emitter} {name : String}

theorem Step.sound (h : Step permit s s') (hs : s.scopes.Sound permit.known) :
    s'.scopes.Sound permit.known := by
  cases h with
  | write | call | select => exact hs
  | declare _ hname hinfo h => exact hs.declare (permit.known_of_stores _ hname) hinfo h
  | store hname hforced h => exact hs.storeRegister (permit.known_of_stores _ hname) hforced h
  | share _ _ h => exact hs.bindAlias h
  | allocate h => exact hs.allocate h
  | push => exact hs.push
  | param _ hname hfresh h =>
    -- a parameter may get a number, since its scope has no containers yet
    refine hs.bind hname (fun forced hforced => ?_) (fun _ => hfresh _) h
    cases hforced
  | pop => exact hs.pop
  | control _ hscopes => exact hscopes ▸ hs

theorem Steps.sound (h : Steps permit s s') (hs : s.scopes.Sound permit.known) :
    s'.scopes.Sound permit.known := by
  induction h with
  | refl => exact hs
  | tail _ hstep ih => exact hstep.sound ih

/-- The pools of labels stay in order. -/
theorem Steps.isPool (h : Steps permit s s') (hs : s.jumps.IsPool) : s'.jumps.IsPool := by
  induction h with
  | refl => exact hs
  | tail _ hstep ih =>
    cases hstep with
    | control _ _ hjumps => exact hjumps ih
    | _ => exact ih

/-- A step inside a function leaves alone the names that it may not store to. -/
theorem Step.untouched (h : Step permit s s') (hnests : ¬ permit.nests)
    (hname : ¬ permit.stores name) : s.scopes.Untouched name s'.scopes := by
  have hne : ∀ {other}, permit.stores other → name ≠ other := by
    rintro other hother rfl
    exact hname hother
  cases h with
  | write | call | select => exact .refl name s.scopes
  | declare _ hother _ h => exact Scopes.untouched_bind (hne hother) h
  | store hother _ h => exact Scopes.untouched_storeRegister (hne hother) h
  | share _ hother h => exact Scopes.untouched_bindAlias (hne hother) h
  | allocate h => exact Scopes.untouched_allocate h
  | push hpush | param hpush | pop hpush => exact (hnests hpush).elim
  | control _ hscopes => exact hscopes ▸ .refl name s.scopes

theorem Steps.untouched (h : Steps permit s s') (hnests : ¬ permit.nests)
    (hname : ¬ permit.stores name) : s.scopes.Untouched name s'.scopes := by
  induction h with
  | refl => exact .refl name s.scopes
  | tail _ hstep ih => exact ih.trans (hstep.untouched hnests hname)

theorem Step.adds (h : Step permit s s') : ∃ added,
    s'.listing.lines.toList = s.listing.lines.toList ++ added ∧
      ∀ line ∈ added, permit.Adds line := by
  cases h with
  | @write instr comment h =>
    exact ⟨[⟨instr, comment, instr.kind⟩], by simp [Listing.emit, Listing.append],
      List.forall_mem_singleton.mpr ⟨rfl, Or.inl h⟩⟩
  | call routine =>
    refine ⟨[{ instr := Routine.call routine }], ?_,
      List.forall_mem_singleton.mpr ⟨rfl, Or.inl trivial⟩⟩
    simp [Listing.callRoutine, Listing.emit, Listing.append]
  | @select register h =>
    refine ⟨[⟨.alpha register.nameOrEmpty, none, .string⟩, { instr := selectionLine }], ?_, ?_⟩
    · simp [Listing.emit, Listing.append]
    · exact List.forall_mem_cons.mpr ⟨⟨rfl, Or.inr (Or.inl ⟨register, h, rfl⟩)⟩,
        List.forall_mem_singleton.mpr ⟨rfl, Or.inr (Or.inr rfl)⟩⟩
  | control hlisting => exact ⟨[], by rw [hlisting, List.append_nil], List.forall_mem_nil _⟩
  | _ => exact ⟨[], (List.append_nil _).symm, List.forall_mem_nil _⟩

/-- Lines are only appended, and only such as are permitted. -/
theorem Steps.adds (h : Steps permit s s') : ∃ added,
    s'.listing.lines.toList = s.listing.lines.toList ++ added ∧
      ∀ line ∈ added, permit.Adds line := by
  induction h with
  | refl => exact ⟨[], (List.append_nil _).symm, List.forall_mem_nil _⟩
  | tail _ hstep ih =>
    obtain ⟨added, hlines, hadded⟩ := ih
    obtain ⟨added', hlines', hadded'⟩ := hstep.adds
    exact ⟨added ++ added', by rw [hlines', hlines, List.append_assoc],
      List.forall_mem_append.mpr ⟨hadded, hadded'⟩⟩

theorem Steps.grows (h : Steps permit s s') : s.listing.lines.toList <+: s'.listing.lines.toList :=
  let ⟨added, hlines, _⟩ := h.adds
  ⟨added, hlines.symm⟩

end Emitter

/-! ### Parameters -/

namespace Scopes

variable {scopes scopes' : Scopes} {name other : String} {register : Register}

theorem innermost_modifyHome (scopes : Scopes) (name : String) (f : Scope → Scope) :
    (scopes.modifyHome name f).innermost = scopes.innermost ∨
      (scopes.modifyHome name f).innermost = f scopes.innermost := by
  unfold modifyHome
  split
  · exact Or.inr rfl
  · split
    · exact Or.inl rfl
    · exact Or.inr rfl

/-- A parameter is no container. -/
theorem marks_innermost_bind_scalar (h : scopes.bind name .scalar = .ok (register, scopes')) :
    scopes'.innermost.Marks other ↔ scopes.innermost.Marks other := by
  have hbind : ∀ scope : Scope, (scope.bind name register .scalar).Marks other ↔
      scope.Marks other :=
    fun _ => Iff.rfl
  rcases bind_inv h with ⟨-, rfl⟩ | ⟨-, -, rfl, rfl⟩
  · rcases innermost_modifyHome scopes name (·.bind name register .scalar) with heq | heq
    · rw [heq]
    · rw [heq]
      exact hbind _
  · exact hbind _

end Scopes

namespace Emit

variable {s s' t : Emitter} {α β : Type} {params : List Ident} {registers : List (Ident × Register)}
  {error : CompileError} {m : Emit α}

/-- Parameters are bound in a scope that has no containers yet. -/
theorem steps_paramRegisters (hnests : permit.nests)
    (hparams : ∀ param ∈ params, permit.known param.name)
    (hfresh : ∀ other, ¬ s.scopes.innermost.Marks other)
    (hrun : (paramRegisters params).run s = .ok (registers, s')) : s.Steps permit s' := by
  induction params generalizing s registers with
  | nil =>
    cases hrun
    exact .refl
  | cons param rest ih =>
    rw [List.forall_mem_cons] at hparams
    obtain ⟨register, s₁, hfirst, hrun⟩ := run_bind.mp hrun
    obtain ⟨scopes, hbind, rfl⟩ := run_withScopes.mp hfirst
    obtain ⟨registers', s₂, hrest, hrun⟩ := run_bind.mp hrun
    cases hrun
    -- a parameter is no container, so the next one is bound in such a scope too
    refine .head (.param hnests hparams.1 hfresh hbind) (ih hparams.2 (fun other => ?_) hrest)
    rw [Scopes.marks_innermost_bind_scalar hbind]
    exact hfresh other

theorem steps_enter {label : Label} {signature : String} (hnests : permit.nests)
    (hparams : ∀ param ∈ params, permit.known param.name)
    (hrun : (enter label signature params).run s = .ok (registers, s')) : s.Steps permit s' := by
  have hlabel : permit.Writes (some signature) (.lbl label) := trivial
  have hfresh : ∀ other, ¬ s.scopes.push.innermost.Marks other := fun other => nofun
  obtain ⟨_, s₁, hwrite, hrun⟩ := run_bind.mp (run_modify_bind.symm.trans hrun)
  cases hwrite
  exact .head (.push s hnests) (.head (b := { s with scopes := s.scopes.push, loops := [] })
    (.control rfl rfl id)
    (.head (.write _ hlabel) (steps_paramRegisters hnests hparams hfresh hrun)))

section

variable {m : Emit α} {a : α} (hm : Permitted permit m) (hs : s.scopes.Sound permit.known)
  (hrun : m.run s = .ok (a, s'))

include hm hs hrun

theorem Permitted.steps : s.Steps permit s' := by
  induction hm generalizing s s' with
  | pure | state =>
    cases hrun
    exact .refl
  | fail => cases hrun
  | bind_of _ _ ihm ihf =>
    -- the second action is permitted because the first leaves the scopes sound
    obtain ⟨b, s₁, hfirst, hsecond⟩ := run_bind.mp hrun
    have hsteps := ihm hs hfirst
    exact hsteps.trans (ihf s b s₁ hs hfirst (hsteps.sound hs) hsecond)
  | emitted h =>
    cases hrun
    exact .single (.write s h)
  | call routine =>
    cases hrun
    exact .single (.call s routine)
  | selectContainer h =>
    cases hrun
    exact .single (.select s h)
  | declare hdeclares hname hinfo =>
    obtain ⟨scopes, hbind, rfl⟩ := run_withScopes.mp hrun
    exact .single (.declare hdeclares hname hinfo hbind)
  | storeRegister hname hforced =>
    obtain ⟨scopes, hstore, rfl⟩ := run_withScopes.mp hrun
    exact .single (.store hname hforced hstore)
  | share target hdeclares hname =>
    obtain ⟨scopes, hshare, rfl⟩ := run_withScopes.mp hrun
    obtain ⟨scopes₁, hshare, h⟩ := bind_eq_ok.mp hshare
    cases h
    exact .single (.share hdeclares hname hshare)
  | anonymous =>
    obtain ⟨scopes, hallocate, rfl⟩ := run_withScopes.mp hrun
    exact .single (.allocate hallocate)
  | withJumps _ _ hstep =>
    obtain ⟨jumps, hjumps, rfl⟩ := run_withJumps.mp hrun
    exact .single (.control rfl rfl (hstep hjumps))
  | control hlisting hscopes hjumps =>
    cases hrun
    exact .single (.control (hlisting s) (hscopes s) (hjumps s))
  | enter label signature hnests hparams =>
    exact steps_enter hnests (fun param hparam => (hparams param hparam).1) hrun
  | leave loops hnests =>
    cases hrun
    exact .head (.pop s hnests) (.single (.control rfl rfl id))

theorem Permitted.sound :
    s'.scopes.Sound permit.known :=
  (hm.steps hs hrun).sound hs

end

/-! ### Errors -/

theorem exists_param_of_error (hrun : (paramRegisters params).run s = .error error) :
    ∃ param ∈ params, error.position = param.start := by
  induction params generalizing s with
  | nil => cases hrun
  | cons param rest ih =>
    rcases run_bind_error.mp hrun with hrun | ⟨register, s₁, -, hrun⟩
    · obtain ⟨cause, -, rfl⟩ := run_withScopes_error.mp hrun
      exact ⟨param, List.mem_cons_self, rfl⟩
    · rcases run_bind_error.mp hrun with hrun | ⟨_, _, -, hrun⟩
      · obtain ⟨param, hmem, hposition⟩ := ih hrun
        exact ⟨param, List.mem_cons_of_mem _ hmem, hposition⟩
      · cases hrun

/-- A permitted action fails at a place of the script only. -/
theorem Permitted.place_of_error (hm : Permitted permit m) (hs : s.scopes.Sound permit.known)
    (hrun : m.run s = .error error) :
    permit.words.place error.position := by
  induction hm generalizing s with
  | pure | state | emitted | call | selectContainer | control | leave => cases hrun
  | fail fault hplace =>
    cases hrun
    exact hplace
  | bind_of hm _ ihm ihf =>
    rcases run_bind_error.mp hrun with hfirst | ⟨a, s₁, hfirst, hsecond⟩
    · exact ihm hs hfirst
    · exact ihf s a s₁ hs hfirst (hm.sound hs hfirst) hsecond
  | declare _ _ _ hplace | storeRegister _ _ hplace | share _ _ _ hplace | anonymous hplace =>
    obtain ⟨cause, -, rfl⟩ := run_withScopes_error.mp hrun
    exact hplace
  | withJumps _ hplace =>
    obtain ⟨pool, -, rfl⟩ := run_withJumps_error.mp hrun
    exact hplace
  | enter label signature _ hparams =>
    have hrun := run_modify_bind.symm.trans hrun
    rcases run_bind_error.mp hrun with hlabel | ⟨_, _, -, hbind⟩
    · cases hlabel
    · obtain ⟨param, hmem, hposition⟩ := exists_param_of_error hbind
      exact hposition ▸ (hparams param hmem).2

/-! ### Visited states -/

/-- A run of an action from `s` passes through `t`: it does so at its start, between two of the
actions that it is made of, between two parameters of a function, or at its end. The run may fail
after `t`. -/
inductive Visits (permit : Permit) : {α : Type} → Emit α → Emitter → Emitter → Prop where
  | start {α : Type} (m : Emit α) (s : Emitter) : Visits permit m s s
  | done {α : Type} {m : Emit α} {s t : Emitter} {a : α} (hm : Permitted permit m)
      (hrun : m.run s = .ok (a, t)) : Visits permit m s t
  | first {α β : Type} {m : Emit α} {f : α → Emit β} {s t : Emitter} (h : Visits permit m s t) :
      Visits permit (m >>= f) s t
  | next {α β : Type} {m : Emit α} {f : α → Emit β} {s s₁ t : Emitter} {a : α}
      (hm : Permitted permit m) (hrun : m.run s = .ok (a, s₁)) (h : Visits permit (f a) s₁ t) :
      Visits permit (m >>= f) s t
  | params {label : Label} {signature : String} {params : List Ident} (rest : List Ident)
      {s t : Emitter} (h : Visits permit (enter label signature params) s t) :
      Visits permit (enter label signature (params ++ rest)) s t

/-- Every state that a run passes through lies on a path of steps. -/
theorem Visits.steps (h : Visits permit m s t) (hs : s.scopes.Sound permit.known) :
    s.Steps permit t := by
  induction h with
  | start => exact .refl
  | done hm hrun => exact hm.steps hs hrun
  | first _ ih => exact ih hs
  | next hm hrun _ ih =>
    have hsteps := hm.steps hs hrun
    exact hsteps.trans (ih (hsteps.sound hs))
  | params _ _ ih => exact ih hs

/-- A block passes through the states between its statements. -/
theorem visits_block {labels : FunctionLabels} {before : List Stmt} (after : List Stmt)
    (hdeclares : permit.declares) (hnamed : ∀ s ∈ before, s.Named permit.words)
    (hbefore : ∀ name ∈ Script.storedNames before, permit.stores name)
    (hrun : (block labels before).run s = .ok ((), t)) :
    Visits permit (block labels (before ++ after)) s t := by
  induction before generalizing s with
  | nil =>
    cases hrun
    exact .start _ _
  | cons statement before ih =>
    rw [List.forall_mem_cons] at hnamed
    rw [Script.storedNames, List.forall_mem_append] at hbefore
    obtain ⟨_, s₁, hfirst, hrest⟩ := run_bind.mp hrun
    exact .next (permitted_stmt hdeclares hnamed.1 hbefore.1) hfirst (ih hnamed.2 hbefore.2 hrest)

/-! ### Compilations -/

/-- All steps on some names. -/
def Permit.full (names : String → Prop) : Permit where
  known := names
  stores := names
  known_of_stores _ h := h
  declares := True
  nests := True
  words := .any

/-- The steps of an expression, which declares nothing and stays in its function. -/
def Permit.operand (known stores : String → Prop)
    (h : ∀ name, stores name → known name) : Permit where
  known
  stores
  known_of_stores := h
  declares := False
  nests := False
  words := .any

/-- The steps of the statements of a block, which stay in their function. -/
def Permit.statements (stores : String → Prop) : Permit where
  known _ := True
  stores
  known_of_stores _ _ := trivial
  declares := True
  nests := False
  words := .any

/-- The compilation of a script, with a number of registers and a supply of jump labels, passes
through a state. -/
def Reaches (labels : FunctionLabels) (body : List Stmt) (limit : Nat) (jumps : LabelSupply)
    (s : Emitter) : Prop :=
  Visits (.full (· ∈ Script.storedNames body)) (program labels body)
    { scopes := .ofLimit limit, jumps } s

variable {labels : FunctionLabels} {body : List Stmt} {limit : Nat} {jumps : LabelSupply}

/-- Every state of a compilation lies on a path of steps from its start. -/
theorem Reaches.steps (h : Reaches labels body limit jumps s) :
    Emitter.Steps (.full (· ∈ Script.storedNames body)) { scopes := .ofLimit limit, jumps } s :=
  Visits.steps h (.ofLimit limit)

theorem Reaches.sound (h : Reaches labels body limit jumps s) :
    s.scopes.Sound (· ∈ Script.storedNames body) :=
  h.steps.sound (.ofLimit limit)

/-- A compilation that succeeds passes through its last state. -/
theorem reaches_of_run
    (hrun : (program labels body).run { scopes := .ofLimit limit, jumps } = .ok ((), s)) :
    Reaches labels body limit jumps s :=
  .done (permitted_program trivial (Script.named_any_stmts body) (fun _ h => h) trivial) hrun

/-- A compilation passes through the states between the statements outside functions. -/
theorem reaches_of_block {label : Label} {before : List Stmt} (after : List Stmt)
    (hentry : labels.entry = some label) (hcode : body.filter isEntryCode = before ++ after)
    (hnames : ∀ name ∈ Script.storedNames before, name ∈ Script.storedNames body)
    (hrun : (do commented (.lbl label) entryComment; block labels before : Emit Unit).run
      { scopes := .ofLimit limit, jumps } = .ok ((), s)) : Reaches labels body limit jumps s := by
  obtain ⟨_, s₁, hlabel, hblock⟩ := run_bind.mp hrun
  refine .first ?_
  rw [hcode]
  unfold entryCode
  rw [hentry]
  exact .next (.emitted trivial) hlabel
    (.first (visits_block after trivial (Script.named_any_stmts _) hnames hblock))

end Emit

end Keystroke
