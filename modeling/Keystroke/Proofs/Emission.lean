import Mathlib.Logic.Relation
import Mathlib.Tactic.Common
import Keystroke.Compile

/-!
# Runs of emission actions

An action of type `Emit` is a function of the state, so a proof about it is a proof about its
successful runs. This file opens such runs step by step, and says what writing a line does to a
listing.
-/

namespace Keystroke

open Routine

/-- The kind of line that an instruction should stand in. -/
def Instr.kind : Instr → LineKind
  | .alpha _ | .alphaAppend _ => .string
  | _ => .plain

variable {ε α β : Type} {x : Except ε α} {f : α → Except ε β} {jumps : LabelSupply}

/-- Two steps in a row succeed when the first does and then the second. -/
theorem bind_eq_ok {b : β} :
    (x >>= f) = .ok b ↔ ∃ a, x = .ok a ∧ f a = .ok b := by
  cases x with
  | error e => simp [bind, Except.bind]
  | ok a => simp [bind, Except.bind]

/-- Two steps in a row fail when the first does, or the second after it. -/
theorem bind_eq_error {e : ε} :
    (x >>= f) = .error e ↔ x = .error e ∨ ∃ a, x = .ok a ∧ f a = .error e := by
  cases x with
  | error e' => simp [bind, Except.bind]
  | ok a => simp [bind, Except.bind]

/-- A computation that passes a check has a result that does. -/
theorem exists_ok_of_any {result : Except ε α} {p : α → Bool}
    (h : result.toOption.any p = true) : ∃ a, result = .ok a ∧ p a = true := by
  cases result with
  | error e => cases h
  | ok a => exact ⟨a, rfl, h⟩

namespace Emit

variable {α β : Type} {s s' : Emitter} {a : α} {b : β}

/-! ### Sequencing -/

variable {m : Emit α} {f g : α → Emit β}

theorem run_bind :
    (m >>= f).run s = .ok (b, s') ↔
      ∃ a s₁, m.run s = .ok (a, s₁) ∧ (f a).run s₁ = .ok (b, s') := by
  show (m.run s >>= fun p => (f p.1).run p.2) = .ok (b, s') ↔ _
  rw [bind_eq_ok, Prod.exists]

theorem run_bind_error {e : CompileError} :
    (m >>= f).run s = .error e ↔
      m.run s = .error e ∨ ∃ a s₁, m.run s = .ok (a, s₁) ∧ (f a).run s₁ = .error e := by
  show (m.run s >>= fun p => (f p.1).run p.2) = .error e ↔ _
  rw [bind_eq_error, Prod.exists]

/-- The second of two actions starts where the first one ends. -/
theorem run_bind_of_ok {s₁ : Emitter} (h : m.run s = .ok (a, s₁)) :
    (m >>= f).run s = (f a).run s₁ := by
  show (m.run s >>= fun p => (f p.1).run p.2) = _
  rw [h]
  rfl

theorem run_bind_congr (h : ∀ a s', m.run s = .ok (a, s') → (f a).run s' = (g a).run s') :
    (m >>= f).run s = (m >>= g).run s := by
  show (m.run s >>= fun p => (f p.1).run p.2) = (m.run s >>= fun p => (g p.1).run p.2)
  cases hrun : m.run s with
  | error e => rfl
  | ok p => exact h p.1 p.2 hrun

theorem bind_congr_of_run (h : ∀ s a s', m.run s = .ok (a, s') → (f a).run s' = (g a).run s') :
    m >>= f = m >>= g :=
  funext fun s => run_bind_congr (h s)

variable {start : Position} {register : Register}

@[simp] theorem run_get_bind {f : Emitter → Emit α} : (get >>= f).run s = (f s).run s := rfl

@[simp] theorem run_modify {f : Emitter → Emitter} :
    (modify f : Emit Unit).run s = .ok ((), f s) := rfl

@[simp] theorem run_modify_bind {f : Emitter → Emitter} {g : Unit → Emit α} :
    ((modify f : Emit Unit) >>= g).run s = (g ()).run (f s) := rfl

section

variable {step : Scopes → Except ScopeError (α × Scopes)}

theorem run_withScopes_eq : (withScopes step start).run s =
    match step s.scopes with
    | .ok (a, scopes) => .ok (a, { s with scopes })
    | .error e => .error ⟨.scope e, start⟩ := by
  show (ofScopes (step s.scopes) start >>= fun p => do
    modify fun emitter => { emitter with scopes := p.2 }
    return p.1).run s = _
  cases step s.scopes <;> rfl

theorem run_withScopes : (withScopes step start).run s = .ok (a, s') ↔
    ∃ scopes, step s.scopes = .ok (a, scopes) ∧ s' = { s with scopes } := by
  rw [run_withScopes_eq]
  cases step s.scopes with
  | error e => simp
  | ok p => simp [Prod.ext_iff, eq_comm]

theorem run_withScopes_error {e : CompileError} : (withScopes step start).run s = .error e ↔
    ∃ cause, step s.scopes = .error cause ∧ e = ⟨.scope cause, start⟩ := by
  rw [run_withScopes_eq]
  cases step s.scopes with
  | error cause => simp [eq_comm]
  | ok p => simp

end

/-- The register of a name is looked up without a change. -/
theorem run_registerOf_eq_ok {name : String} :
    (registerOf name start).run s = .ok (register, s') ↔
      s.scopes.getRegister name = .ok register ∧ s = s' := by
  rw [registerOf, run_get_bind]
  cases s.scopes.getRegister name with
  | error e => exact ⟨nofun, nofun⟩
  | ok found =>
    show Except.ok (found, s) = .ok (register, s') ↔ _
    simp

/-- A container is found through the register of its name, and is a matrix if nothing else is known
of it. -/
theorem run_containerOf {id : Script.Ident} {kind : Container}
    (h : (containerOf id).run s = .ok ((register, kind), s')) :
    s.scopes.getRegister id.name = .ok register ∧ s = s' ∧
      (s.scopes.container? id.name = some kind ∨
        s.scopes.container? id.name = none ∧ kind = .matrix ∧ register.isNamed = true) := by
  obtain ⟨found, s₁, hfound, h⟩ := run_bind.mp h
  obtain ⟨hregister, rfl⟩ := run_registerOf_eq_ok.mp hfound
  rw [run_get_bind] at h
  dsimp only at h
  split at h
  · rename_i hkind
    cases h
    exact ⟨hregister, rfl, Or.inl hkind⟩
  · rename_i hkind
    split at h
    · rename_i hnamed
      cases h
      exact ⟨hregister, rfl, Or.inr ⟨hkind, rfl, hnamed⟩⟩
    · cases h

section

variable {step : LabelSupply → Except JumpPool (α × LabelSupply)}

theorem run_withJumps_eq : (withJumps step start).run s =
    match step s.jumps with
    | .ok (a, jumps) => .ok (a, { s with jumps })
    | .error pool => .error ⟨.jumps pool, start⟩ := by
  rw [withJumps, run_get_bind]
  cases step s.jumps <;> rfl

theorem run_withJumps : (withJumps step start).run s = .ok (a, s') ↔
    ∃ jumps, step s.jumps = .ok (a, jumps) ∧ s' = { s with jumps } := by
  rw [run_withJumps_eq]
  cases step s.jumps with
  | error pool => simp
  | ok p => simp [Prod.ext_iff, eq_comm]

theorem run_withJumps_error {e : CompileError} : (withJumps step start).run s = .error e ↔
    ∃ pool, step s.jumps = .error pool ∧ e = ⟨.jumps pool, start⟩ := by
  rw [run_withJumps_eq]
  cases step s.jumps with
  | error pool => simp [eq_comm]
  | ok p => simp

end

/-! ### Loops -/

/-- A jump forward to a label that the innermost loop may have. If it has none, one is handed out
and recorded in the loop. -/
def jumpForward (start : Position) (label : Option Nat) (record : Nat → Loop) : Emit Unit :=
  match label with
  | some label => jump label
  | none => do
    let label ← skipLabel start
    setLoop (record label)
    jump label

/-- The register of the list or dictionary that a loop goes over. -/
def sourceOf (container : Script.Ident) : Emit Register := do
  match (← get).scopes.container? container.name with
  | some .list | some .dict => registerOf container.name container.start
  | _ => fail (.use (.notIterable container.name)) container.start

/-- The code of a loop over rows, from where a row has been loaded. -/
def rowLoop (target container : Script.Ident) (counter : Register) (entry exit : Nat)
    (body : Emit Unit) : Emit Unit := do
  let item ← storeRegister target.name (.element container.name) target.start
  store item target.name false
  let loop ← loopBody { entry, continuesAtEntry := false, exitLabel := some exit } body
  closeCounted counter loop

/-- The code of a loop over rows, from where the number of rows is tested. -/
def testedLoop (start : Position) (target container : Script.Ident) (source counter : Register)
    (exit : Nat) (body : Emit Unit) : Emit Unit := do
  op .isZero
  jump exit
  line (.int 1)
  call .packCounter
  store counter ("for " ++ target.name ++ " in " ++ container.name) false
  let entry ← loopLabel start
  place entry
  loadRow source counter
  rowLoop target container counter entry exit body

/-- The code of a loop over the rows of a container in a register. -/
def sourceLoop (start : Position) (target container : Script.Ident) (body : Emit Unit)
    (source : Register) : Emit Unit := do
  let counter ← anonymous start
  let exit ← skipLabel start
  line (.int 0)
  selectContainer source
  call .listLength
  testedLoop start target container source counter exit body

theorem forElements_eq (target container : Script.Ident) (body : Emit Unit) :
    forElements target container start body =
      sourceOf container >>= sourceLoop start target container body := by
  unfold forElements sourceOf
  rw [bind_assoc]
  refine bind_congr fun s => ?_
  cases s.scopes.container? container.name with
  | none => rfl
  | some kind => cases kind <;> rfl

end Emit

/-! ### Writing lines -/

namespace Routine

/-- Every routine is found under its own name. -/
@[simp] theorem ofName?_name (routine : Routine) : ofName? routine.name = some routine := by
  cases routine <;> rfl

theorem name_of_ofName? {name : String} {routine : Routine} (h : ofName? name = some routine) :
    routine.name = name := by
  simpa using List.find?_some h

def ofCall? : Instr → Option Routine
  | .xeq (.global name) => ofName? name
  | _ => none

@[simp] theorem ofCall?_call (routine : Routine) : ofCall? (call routine) = some routine :=
  ofName?_name routine

theorem eq_call_of_ofCall? {instr : Instr} {routine : Routine} (h : ofCall? instr = some routine) :
    instr = call routine := by
  unfold ofCall? at h
  split at h
  · rw [call, name_of_ofName? h]
  · cases h

end Routine

namespace Listing

variable {listing : Listing} {code : List Line} {line : Line} {instr : Instr}
  {comment : Option String} {kind : LineKind}

def instrs (listing : Listing) : List Instr :=
  listing.lines.toList.map (·.instr)

/-- Appends a line, and records the support routine that it calls. -/
def write (listing : Listing) (line : Line) : Listing :=
  match Routine.ofCall? line.instr with
  | some routine => (listing.need routine).append line
  | none => listing.append line

/-- Appends lines, and records the support routines that they call. -/
def writeAll (listing : Listing) (code : List Line) : Listing :=
  code.foldl write listing

@[simp] theorem writeAll_cons :
    listing.writeAll (line :: code) = (listing.write line).writeAll code := rfl

theorem writeAll_append (code₁ code₂ : List Line) :
    listing.writeAll (code₁ ++ code₂) = (listing.writeAll code₁).writeAll code₂ :=
  List.foldl_append

theorem emit_eq_write (h : ofCall? instr = none) :
    listing.emit instr comment kind = listing.write ⟨instr, comment, kind⟩ := by
  simp only [write, h]
  rfl

theorem callRoutine_eq_write (routine : Routine) :
    listing.callRoutine routine = listing.write { instr := call routine } := by
  simp only [write, ofCall?_call]
  rfl

@[simp] theorem lines_need (routine : Routine) : (listing.need routine).lines = listing.lines := by
  unfold need
  split <;> rfl

@[simp] theorem lines_write : (listing.write line).lines = listing.lines.push line := by
  unfold write
  split
  · exact congrArg (·.push line) (lines_need _)
  · rfl

@[simp] theorem lines_writeAll : (listing.writeAll code).lines.toList =
    listing.lines.toList ++ code := by
  induction code generalizing listing with
  | nil => exact (List.append_nil _).symm
  | cons line code ih => simp [ih]

@[simp] theorem instrs_writeAll :
    (listing.writeAll code).instrs = listing.instrs ++ code.map (·.instr) := by
  simp [instrs]

@[simp] theorem instrs_write : (listing.write line).instrs = listing.instrs ++ [line.instr] := by
  simp [instrs]

@[simp] theorem instrs_emit :
    (listing.emit instr comment kind).instrs = listing.instrs ++ [instr] := by
  simp [instrs, emit, append]

@[simp] theorem lines_foldl_append :
    (code.foldl append listing).lines.toList = listing.lines.toList ++ code := by
  induction code generalizing listing with
  | nil => simp
  | cons line code ih => simp [ih, append]

theorem lines_emitAll {instrs : List Instr} :
    (listing.emitAll instrs kind).lines.toList =
      listing.lines.toList ++ instrs.map (⟨·, none, kind⟩) := by
  induction instrs generalizing listing with
  | nil => simp [emitAll]
  | cons instr rest ih =>
    show ((listing.emit instr none kind).emitAll rest kind).lines.toList = _
    rw [ih]
    simp [emit, append]

theorem instrs_emitAll {instrs : List Instr} :
    (listing.emitAll instrs kind).instrs = listing.instrs ++ instrs := by
  simp [Listing.instrs, lines_emitAll, Function.comp_def]

variable {routine : Routine}

theorem mem_needed_need {other : Routine} :
    other ∈ (listing.need routine).needed ↔ other ∈ listing.needed ∨ other = routine := by
  unfold need
  split
  · rename_i h
    have hmem : routine ∈ listing.needed := by simpa using h
    constructor
    · exact Or.inl
    · rintro (h | rfl)
      · exact h
      · exact hmem
  · simp

theorem mem_needed_write :
    routine ∈ (listing.write line).needed ↔
      routine ∈ listing.needed ∨ ofCall? line.instr = some routine := by
  unfold write
  split
  · rename_i called h
    rw [h, show ((listing.need called).append line).needed = (listing.need called).needed from rfl,
      mem_needed_need]
    simp [eq_comm]
  · rename_i h
    rw [h]
    simp [append]

theorem mem_needed_writeAll :
    routine ∈ (listing.writeAll code).needed ↔
      routine ∈ listing.needed ∨ call routine ∈ code.map (·.instr) := by
  induction code generalizing listing with
  | nil => exact (or_iff_left List.not_mem_nil).symm
  | cons line code ih =>
    have hcall : ofCall? line.instr = some routine ↔ call routine = line.instr := by
      constructor
      · intro h
        exact (eq_call_of_ofCall? h).symm
      · intro h
        rw [← h, ofCall?_call]
    rw [writeAll_cons, ih, mem_needed_write, hcall, List.map_cons, List.mem_cons, or_assoc]

@[simp] theorem lastIsString_emit :
    (listing.emit instr comment kind).lastIsString = (kind == .string) := by
  simp [lastIsString, emit, append]

@[simp] theorem lastIsString_write :
    (listing.write line).lastIsString = (line.kind == .string) := by
  simp [lastIsString]

/-- Whether the last line is a text depends on the old lines only when there are no new ones. -/
theorem lastIsString_writeAll {other : Listing} (h : other.lastIsString = listing.lastIsString) :
    (other.writeAll code).lastIsString = (listing.writeAll code).lastIsString := by
  induction code generalizing listing other with
  | nil => exact h
  | cons line code ih =>
    refine ih ?_
    rw [lastIsString_write, lastIsString_write]

end Listing

/-! ### Functions -/

namespace Emit

open Script (FunctionHeader Ident)

theorem listing_paramRegisters {params : List Ident} {registers : List (Ident × Register)}
    {s s' : Emitter} (h : (paramRegisters params).run s = .ok (registers, s')) :
    s'.listing = s.listing := by
  induction params generalizing registers s with
  | nil =>
    cases h
    rfl
  | cons param rest ih =>
    obtain ⟨register, s₁, hbind, h⟩ := run_bind.mp h
    obtain ⟨others, s₂, hrest, hpure⟩ := run_bind.mp h
    obtain ⟨scopes, -, rfl⟩ := run_withScopes.mp hbind
    cases hpure
    exact (ih hrest :)

/-- After a line that leaves no text, arguments are stored from the stack. -/
theorem run_storeParams {s : Emitter} (h : s.listing.lastIsString = false)
    (registers : List (Ident × Register)) :
    (storeParams registers).run s = (storeDown registers).run s := by
  induction registers generalizing s with
  | nil => rfl
  | cons entry rest ih =>
    show (storeParams rest).run { s with listing :=
      (s.listing.emitStore entry.2 (some entry.1.name) s.listing.lastIsString).emit (.op
        .rollDown) } = _
    rw [h]
    exact ih Listing.lastIsString_emit

/-- The line before the first argument is the label, and the line before any other one turns the
stack, so that no argument is stored as a text. -/
theorem function_eq (labels : FunctionLabels) (header : FunctionHeader) (body nested : Emit Unit) :
    function labels header body nested = (do
      match labels.get? header.name.name with
      | none => fail (.use (.functionWithoutLabel header.name.name)) header.name.start
      | some label =>
        let loops := (← get).loops
        modify fun emitter => { emitter with loops := [], scopes := emitter.scopes.push }
        commented (.lbl label) header.signature
        let registers ← paramRegisters header.params
        storeDown registers.reverse
        body
        finishBody
        nested
        modify fun emitter => { emitter with loops, scopes := emitter.scopes.pop }) := by
  unfold function
  cases labels.get? header.name.name with
  | none => rfl
  | some label =>
    refine bind_congr fun s => bind_congr fun _ => bind_congr_of_run fun _ _ s₁ hlabel =>
      run_bind_congr fun registers s₂ hparams => ?_
    have hplain : s₂.listing.lastIsString = false := by
      rw [listing_paramRegisters hparams]
      cases hlabel
      exact Listing.lastIsString_emit
    rw [StateT.run_bind, run_storeParams hplain]
    rfl

end Emit

/-! ### Scope operations -/

namespace Scopes

/-- One operation on the scopes. -/
inductive Step : Scopes → Scopes → Prop where
  | push (scopes : Scopes) : Step scopes scopes.push
  | pop (scopes : Scopes) : Step scopes scopes.pop
  | bind {scopes scopes' : Scopes} {name : String} {info : VarInfo} {register : Register}
      (h : scopes.bind name info = .ok (register, scopes')) : Step scopes scopes'
  | allocate {scopes scopes' : Scopes} {register : Register}
      (h : scopes.allocate = .ok (register, scopes')) : Step scopes scopes'
  | bindAlias {scopes scopes' : Scopes} {name target : String}
      (h : scopes.bindAlias name target = .ok scopes') : Step scopes scopes'
  | restamp (scopes : Scopes) (name : String) (info : VarInfo) :
      Step scopes (scopes.restamp name info)
  | dropAlias (scopes : Scopes) (name : String) : Step scopes (scopes.dropAlias name).2

/-- Any number of operations on the scopes. -/
def Reach : Scopes → Scopes → Prop :=
  Relation.ReflTransGen Step

theorem Reach.refl (scopes : Scopes) : Reach scopes scopes :=
  Relation.ReflTransGen.refl

theorem Reach.trans {scopes₁ scopes₂ scopes₃ : Scopes} (h₁ : Reach scopes₁ scopes₂)
    (h₂ : Reach scopes₂ scopes₃) : Reach scopes₁ scopes₃ :=
  Relation.ReflTransGen.trans h₁ h₂

theorem Step.reach {scopes scopes' : Scopes} (h : Step scopes scopes') : Reach scopes scopes' :=
  Relation.ReflTransGen.single h

/-- Whether a name has no register: it is not bound, or stands for a name that is not. -/
def isUnbound (scopes : Scopes) (name : String) : Bool :=
  match scopes.getRegister name with
  | .error (.unbound _) => true
  | _ => false

/-- Whether a store binds a name, instead of using the register that it has. -/
def rebinds (scopes : Scopes) (name : String) (info : VarInfo) : Bool :=
  info.isMatrix || scopes.isUnbound name

section

variable {scopes scopes' : Scopes} {name : String} {info : VarInfo} {register : Register}

theorem storeRegister_eq : scopes.storeRegister name info =
    if (scopes.dropAlias name).2.rebinds name info then (scopes.dropAlias name).2.bind name info
    else ((scopes.dropAlias name).2.getRegister name).map
      (·, (scopes.dropAlias name).2.restamp name info) := by
  by_cases hmatrix : info.isMatrix = true
  · simp [storeRegister, rebinds, hmatrix]
  · obtain ⟨found, hfound⟩ : ∃ found, (scopes.dropAlias name).2.getRegister name = found := ⟨_, rfl⟩
    rcases found with (_ | _) | register <;>
      simp [storeRegister, rebinds, isUnbound, hmatrix, hfound, Except.map]

theorem storeRegister_eq_ok (h : scopes.storeRegister name info = .ok (register, scopes')) :
    ((scopes.dropAlias name).2.rebinds name info = true ∧
      (scopes.dropAlias name).2.bind name info = .ok (register, scopes')) ∨
    ((scopes.dropAlias name).2.rebinds name info = false ∧
      (scopes.dropAlias name).2.getRegister name = .ok register ∧
      scopes' = (scopes.dropAlias name).2.restamp name info) := by
  rw [storeRegister_eq] at h
  split at h
  · exact Or.inl ⟨‹_›, h⟩
  · rename_i hrebinds
    cases hregister : (scopes.dropAlias name).2.getRegister name with
    | error error =>
      rw [hregister] at h
      cases h
    | ok found =>
      rw [hregister] at h
      cases h
      exact Or.inr ⟨by simpa using hrebinds, rfl, rfl⟩

theorem reach_storeRegister (h : scopes.storeRegister name info = .ok (register, scopes')) :
    Reach scopes scopes' := by
  have hdrop := (Step.dropAlias scopes name).reach
  rcases storeRegister_eq_ok h with ⟨-, hbind⟩ | ⟨-, -, rfl⟩
  · exact hdrop.trans (Step.bind hbind).reach
  · exact hdrop.trans (Step.restamp _ name info).reach

end

end Scopes

/-! ### Functions -/

/-- Induction on the functions among some statements, of which other statements have none. -/
theorem Script.functions_induction {motive : List Script.Stmt → Prop} (nil : motive [])
    (other : ∀ s rest, (∀ start header body, s = .functionDef start header body → False) →
      motive rest → motive (s :: rest))
    (functionDef : ∀ start header body rest, motive body → motive rest →
      motive (.functionDef start header body :: rest)) (statements : List Script.Stmt) :
    motive statements := by
  induction hsize : sizeOf statements using Nat.strongRecOn generalizing statements with
  | _ size ih =>
    cases statements with
    | nil => exact nil
    | cons s rest =>
      rw [List.cons.sizeOf_spec] at hsize
      have hrest := ih _ (by omega) rest rfl
      cases s with
      | functionDef start header body =>
        rw [Script.Stmt.functionDef.sizeOf_spec] at hsize
        exact functionDef start header body rest (ih _ (by omega) body rfl) hrest
      | _ => exact other _ rest (by rintro _ _ _ ⟨⟩) hrest

theorem Emit.functions_singleton (labels : FunctionLabels) (s : Script.Stmt) :
    functions labels [s] = definedFunction labels s := by
  simp [functions]

/-! ### Passes -/

theorem inPhase_eq_ok {phase : Phase} {source : SourceText}
    {result : Except CompileError α} {a : α} : inPhase phase source result = .ok a ↔
      result = .ok a := by
  cases result <;> simp [inPhase]

theorem compile_eq_ok {text : String} {options : Options} {final : Listing} :
    compile text options jumps = .ok final ↔ ∃ body labels listing,
      Script.ofSource (SourceText.ofString text) = .ok body ∧
        FunctionLabels.assign body = .ok labels ∧
      Listing.ofScript labels body options.registerLimit jumps = .ok listing ∧
      final =
        if options.library then listing.appendLibrary options.localLibraryLabels else listing := by
  constructor
  · intro h
    obtain ⟨body, hbody, h⟩ := bind_eq_ok.mp h
    obtain ⟨labels, hlabels, h⟩ := bind_eq_ok.mp h
    obtain ⟨listing, hlisting, h⟩ := bind_eq_ok.mp h
    cases h
    exact ⟨body, labels, listing, inPhase_eq_ok.mp hbody, inPhase_eq_ok.mp hlabels,
      inPhase_eq_ok.mp hlisting, rfl⟩
  · rintro ⟨body, labels, listing, hbody, hlabels, hlisting, rfl⟩
    exact bind_eq_ok.mpr ⟨body, inPhase_eq_ok.mpr hbody, bind_eq_ok.mpr ⟨labels,
      inPhase_eq_ok.mpr hlabels, bind_eq_ok.mpr ⟨listing, inPhase_eq_ok.mpr hlisting, rfl⟩⟩⟩

theorem ofScript_eq_ok {labels : FunctionLabels} {body : List Script.Stmt} {limit : Nat}
    {listing : Listing} :
    Listing.ofScript labels body limit jumps = .ok listing ↔ ∃ u s,
      (Emit.program labels body).run { scopes := .ofLimit limit, jumps } = .ok (u, s) ∧
      listing = s.listing := by
  unfold Listing.ofScript
  cases (Emit.program labels body).run { scopes := .ofLimit limit, jumps } with
  | error e => simp
  | ok result => simp [Prod.ext_iff, eq_comm]

end Keystroke
