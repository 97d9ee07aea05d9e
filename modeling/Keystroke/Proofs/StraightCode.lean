import Keystroke.Proofs.CodeDiscipline

/-!
# Straight code

The code of an expression runs from its first line to its last: it has no labels, no jumps and no
tests, and what is written does not depend on the jump labels handed out before. Everything that is
no control flow is written by such an action. The numbers in straight code are those of the script.
-/

namespace Keystroke

variable {labels : FunctionLabels} {p : Vocabulary} {instr : Instr} {kind : LineKind}

/-! ### Instructions -/

/-- Labels that a function of a script can have: letters, and quoted names that belong neither to a
support routine nor to the library. -/
def Label.IsOwn : Label → Prop
  | global name => Routine.ofName? name = none ∧ name ≠ Listing.libraryHeader
  | letter _ => True
  | number _ => False

/-- Labels that are handed out to functions of a script and can be told from all others. -/
def FunctionLabels.Linkable (labels : FunctionLabels) : Prop :=
  ∀ name label, labels.get? name = some label → label.IsOwn

/-- A function of the script is never taken for a support routine. -/
theorem FunctionLabels.Linkable.ofCall?_eq_none (h : labels.Linkable) {name : String}
    {label : Label} (hlabel : labels.get? name = some label) :
    Routine.ofCall? (.xeq label) = none := by
  have hown := h _ _ hlabel
  cases label with
  | global name => exact hown.1
  | _ => rfl

/-- Whether an instruction can stand in straight code. A call is that of a support routine or of a
function of the script, and a number with a point is one of the vocabulary. -/
def Instr.IsStraight (labels : FunctionLabels) (p : Vocabulary) : Instr → Prop
  | .op o => o.isControl = false
  | .memory o _ => o ≠ .stepCounter
  | .flag o _ => o.isControl = false
  | .xeq label => (∃ routine : Routine, label = .global routine.name) ∨
      ∃ name, labels.get? name = some label
  | .lbl _ | .gto _ | .verbatim _ => False
  | .decimal spelling => p.number spelling
  | .int _ | .alpha _ | .alphaAppend _ | .setting _ _ => True

theorem Instr.IsInert.isStraight (h : instr.IsInert p kind) : instr.IsStraight labels p := by
  unfold Instr.IsInert at h
  split at h
  all_goals first | exact h | exact MemoryOp.ne_of_isPlain h rfl | exact trivial | exact h.elim

theorem Instr.IsInert.ofCall?_eq_none (h : instr.IsInert p kind) :
    Routine.ofCall? instr = none := by
  cases instr with
  | xeq label => cases kind <;> exact h.elim
  | _ => rfl

/-- Whether a line stores to a variable, and whether it takes text. Such stores have a comment. -/
def Line.store? (line : Line) : Option Bool :=
  match line.instr, line.comment with
  | .memory .store _, some _ => some false
  | .memory .storeAlpha _, some _ => some true
  | _, _ => none

/-- What straight code may be made of: the words of a script, and stores that take text or not. -/
structure Wording extends Vocabulary where
  stores : Bool → Prop

instance : Coe Wording Vocabulary :=
  ⟨Wording.toVocabulary⟩

def Wording.any : Wording :=
  { Vocabulary.any with stores _ := True }

/-- Whether a line can stand in straight code. -/
def Line.IsStraight (labels : FunctionLabels) (p : Wording) (line : Line) : Prop :=
  line.instr.IsStraight labels p ∧ ∀ alpha ∈ line.store?, p.stores alpha

theorem Line.store?_uncommented : (Line.mk instr none kind).store? = none := by
  unfold store?
  split <;> trivial

theorem Line.store?_of_isPlain {o : MemoryOp} {operand : Operand} {comment : Option String}
    (ho : o.isPlain = true) : (Line.mk (.memory o operand) comment kind).store? = none := by
  cases o <;> first | rfl | cases ho

namespace Emitter

/-- The state after lines have been written and the scopes have become `scopes`. -/
def write (emitter : Emitter) (code : List Line) (scopes : Scopes) : Emitter :=
  { emitter with listing := emitter.listing.writeAll code, scopes }

theorem write_write (emitter : Emitter) (code₁ code₂ : List Line) (scopes₁ scopes₂ : Scopes) :
    (emitter.write code₁ scopes₁).write code₂ scopes₂ = emitter.write (code₁ ++ code₂) scopes₂ := by
  simp [write, Listing.writeAll_append]

end Emitter

namespace Emit

variable {labels : FunctionLabels} {p : Wording} {α β : Type}

/-- An action writes straight code. -/
structure Straight (labels : FunctionLabels) (p : Wording) (m : Emit α) : Prop where
  /-- Whenever the action succeeds, it would have written the same lines and come to the same scopes
  from any state that differs only in its earlier lines and its jumps. -/
  repeats : ∀ s a s', m.run s = .ok (a, s') → ∃ code scopes,
    (∀ line ∈ code, line.IsStraight labels p) ∧ s.scopes.Reach scopes ∧
    ∀ t : Emitter, t.scopes = s.scopes → t.listing.lastIsString = s.listing.lastIsString →
      m.run t = .ok (a, t.write code scopes)
  elastic : Elastic m
  /-- The action stays in its function. -/
  level : ∀ s a s', m.run s = .ok (a, s') → s'.scopes.depth = s.scopes.depth
  /-- The action asks for no jump label. -/
  quiet : ∀ s e pool, m.run s = .error e → e.fault ≠ .jumps pool

namespace Straight

variable {m : Emit α} {f : α → Emit β} {instr : Instr} {kind : LineKind}

/-! ### Composition -/

theorem pure (a : α) : Straight labels p (pure a : Emit α) where
  repeats s b s' h := by
    cases h
    exact ⟨[], s.scopes, by simp, .refl _, fun t ht _ => by rw [← ht]; rfl⟩
  elastic := .pure a
  level s b s' h := by
    cases h
    rfl
  quiet s e pool h := by cases h

theorem fail (fault : Fault) (start : Position) (h : ∀ pool, fault ≠ .jumps pool) :
    Straight labels p (Emit.fail fault start : Emit α) where
  repeats s a s' hrun := by cases hrun
  elastic := .fail
  level s a s' hrun := by cases hrun
  quiet s e pool hrun := by
    cases hrun
    exact h pool

/-- Two actions in a row, where the second is straight for every value that the first can give. -/
theorem bind_of (hm : Straight labels p m)
    (hf : ∀ s a s', m.run s = .ok (a, s') → Straight labels p (f a)) :
    Straight labels p (m >>= f) where
  repeats s b s' h := by
    obtain ⟨a, s₁, h₁, h₂⟩ := run_bind.mp h
    obtain ⟨code₁, scopes₁, hcode₁, hreach₁, hrun₁⟩ := hm.repeats s a s₁ h₁
    -- the first action is run again from its own start to learn what `s₁` is
    obtain rfl : s₁ = s.write code₁ scopes₁ := by
      have h := hrun₁ s rfl rfl
      rw [h₁] at h
      cases h
      rfl
    obtain ⟨code₂, scopes₂, hcode₂, hreach₂, hrun₂⟩ := (hf s a _ h₁).repeats _ b s' h₂
    refine ⟨code₁ ++ code₂, scopes₂, ?_, hreach₁.trans hreach₂, ?_⟩
    · intro line hline
      rcases List.mem_append.mp hline with hline | hline
      · exact hcode₁ line hline
      · exact hcode₂ line hline
    · intro t hscopes hlast
      rw [run_bind_of_ok (hrun₁ t hscopes hlast), ← Emitter.write_write]
      exact hrun₂ _ rfl (Listing.lastIsString_writeAll hlast)
  elastic := hm.elastic.bind_of fun s a s' h => (hf s a s' h).elastic
  level s b s' h := by
    obtain ⟨a, s₁, h₁, h₂⟩ := run_bind.mp h
    exact ((hf s a s₁ h₁).level s₁ b s' h₂).trans (hm.level s a s₁ h₁)
  quiet s e pool h := by
    rcases run_bind_error.mp h with h₁ | ⟨a, s₁, h₁, h₂⟩
    · exact hm.quiet s e pool h₁
    · exact (hf s a s₁ h₁).quiet s₁ e pool h₂

theorem bind (hm : Straight labels p m) (hf : ∀ a, Straight labels p (f a)) :
    Straight labels p (m >>= f) :=
  bind_of hm fun _ a _ _ => hf a

theorem ite {c : Prop} [Decidable c] {n : Emit α} (hm : Straight labels p m)
    (hn : Straight labels p n) : Straight labels p (if c then m else n) := by
  split
  · exact hm
  · exact hn

/-- An action that looks at the scopes, but not at the number of registers. -/
theorem get_bind {f : Emitter → Emit α}
    (hscopes : ∀ (s t : Emitter) limit, s.scopes = t.scopes.withLimit limit → f s = f t)
    (hf : ∀ s, Straight labels p (f s)) : Straight labels p (get >>= f) where
  repeats s a s' h := by
    obtain ⟨code, scopes, hcode, hreach, hrun⟩ := (hf s).repeats s a s' h
    refine ⟨code, scopes, hcode, hreach, fun t hsame hlast => ?_⟩
    rw [run_get_bind, hscopes t s s.scopes.limit hsame]
    exact hrun t hsame hlast
  elastic := .get_bind (fun s limit => hscopes _ s limit rfl) fun s => (hf s).elastic
  level s a s' h := (hf s).level s a s' h
  quiet s e pool h := (hf s).quiet s e pool h

/-! ### Lines -/

/-- An action that writes given lines. -/
theorem of_write {m : Emit Unit} (code : List Line)
    (hcode : ∀ line ∈ code, line.IsStraight labels p)
    (hm : ∀ s : Emitter, m.run s = .ok ((), s.write code s.scopes)) : Straight labels p m where
  repeats s a s' _ :=
    ⟨code, s.scopes, hcode, .refl _, fun t hscopes _ => by rw [hm t, hscopes]⟩
  elastic s a s' h := by
    rw [hm] at h
    cases h
    exact .of_next_eq rfl fun limit => hm _
  level s a s' h := by
    rw [hm] at h
    cases h
    rfl
  quiet s e pool h := by
    rw [hm] at h
    cases h

theorem emitted {comment : Option String} (h : (Line.mk instr comment kind).IsStraight labels p)
    (hcall : Routine.ofCall? instr = none) :
    Straight labels p (modifyListing (·.emit instr comment kind)) := by
  refine of_write [⟨instr, comment, kind⟩] (List.forall_mem_singleton.mpr h) fun s => ?_
  show Except.ok ((), { s with listing := s.listing.emit instr comment kind }) = _
  rw [Listing.emit_eq_write hcall]
  rfl

theorem line (h : instr.IsStraight labels p) (hcall : Routine.ofCall? instr = none) :
    Straight labels p (Emit.line instr kind) :=
  emitted ⟨h, by simp [Line.store?_uncommented]⟩ hcall

theorem op {o : Op} (h : o.isControl = false) : Straight labels p (Emit.op o) :=
  line h rfl

theorem call (routine : Routine) : Straight labels p (Emit.call routine) := by
  refine of_write [{ instr := Routine.call routine }] ?_ fun s => ?_
  · intro line hline
    obtain rfl := List.mem_singleton.mp hline
    exact ⟨Or.inl ⟨routine, rfl⟩, by simp [Line.store?_uncommented]⟩
  · show Except.ok ((), { s with listing := s.listing.callRoutine routine }) = _
    rw [Listing.callRoutine_eq_write]
    rfl

theorem store (register : Register) (comment : String) {alpha : Bool} (h : p.stores alpha) :
    Straight labels p (Emit.store register comment alpha) := by
  cases alpha <;> exact emitted ⟨by simp [Instr.store, Instr.storeAlpha, Instr.IsStraight],
    by simpa [Line.store?, Instr.store, Instr.storeAlpha] using h⟩ rfl

theorem lastIsString : Straight labels p Emit.lastIsString where
  repeats s a s' h := by
    cases h
    refine ⟨[], s.scopes, by simp, .refl _, fun t hscopes hlast => ?_⟩
    show Except.ok (t.listing.lastIsString, t) = _
    rw [hlast, ← hscopes]
    rfl
  elastic := .get_bind (fun _ _ => rfl) fun _ => .pure _
  level s a s' h := by
    cases h
    rfl
  quiet s e pool h := by cases h

/-! ### Variables -/

theorem ofScopes (result : Except ScopeError α) (start : Position) :
    Straight labels p (Emit.ofScopes result start) := by
  cases result with
  | ok a => exact pure a
  | error e => exact fail _ _ nofun

theorem withScopes {step : Scopes → Except ScopeError (α × Scopes)} {start : Position}
    (hstep : ∀ scopes a scopes', step scopes = .ok (a, scopes') → scopes.Reach scopes')
    (helastic : Scopes.Elastic step) : Straight labels p (Emit.withScopes step start) where
  repeats s a s' h := by
    obtain ⟨scopes, hs, rfl⟩ := run_withScopes.mp h
    refine ⟨[], scopes, by simp, hstep _ _ _ hs, fun t hscopes _ => ?_⟩
    exact run_withScopes.mpr ⟨scopes, by rw [hscopes, hs], rfl⟩
  elastic := .withScopes helastic
  level s a s' h := by
    obtain ⟨scopes, hs, rfl⟩ := run_withScopes.mp h
    exact (helastic _ _ _ hs).depth
  quiet s e pool h := by
    cases hs : step s.scopes with
    | ok result =>
      have hok : (Emit.withScopes step start).run s = .ok (result.1, _) :=
        run_withScopes.mpr ⟨result.2, hs, rfl⟩
      rw [h] at hok
      cases hok
    | error error =>
      rw [run_withScopes_error.mpr ⟨_, hs, rfl⟩] at h
      cases h
      exact nofun

theorem registerOf (name : String) (start : Position) :
    Straight labels p (Emit.registerOf name start) :=
  get_bind (fun _ _ _ hsame => by rw [hsame, Scopes.getRegister_withLimit]) fun _ => ofScopes _ _

theorem bindName (name : String) (info : VarInfo) (start : Position) :
    Straight labels p (Emit.bind name info start) :=
  withScopes (fun _ _ _ h => (Scopes.Step.bind h).reach) (Scopes.elastic_bind name info)

theorem anonymous (start : Position) : Straight labels p (Emit.anonymous start) :=
  withScopes (fun _ _ _ h => (Scopes.Step.allocate h).reach) Scopes.elastic_allocate

theorem storeRegister (name : String) (info : VarInfo) (start : Position) :
    Straight labels p (Emit.storeRegister name info start) :=
  withScopes (fun _ _ _ h => Scopes.reach_storeRegister h) (Scopes.elastic_storeRegister name info)

/-! ### Containers -/

theorem selectContainer (register : Register) : Straight labels p (Emit.selectContainer register) :=
  bind (line trivial rfl) fun _ => line (by simp [Instr.storeAlpha, Instr.IsStraight]) rfl

theorem containerOf (id : Script.Ident) : Straight labels p (Emit.containerOf id) := by
  refine bind (registerOf _ _) fun register =>
    get_bind (fun _ _ _ hsame => by rw [hsame]; rfl) fun s => ?_
  dsimp only
  cases s.scopes.container? id.name with
  | some kind => exact pure _
  | none => exact ite (pure _) (fail _ _ nofun)

theorem sourceOf (id : Script.Ident) : Straight labels p (Emit.sourceOf id) := by
  refine get_bind (fun _ _ _ hsame => by simp only [hsame, Scopes.container?_withLimit]) fun s => ?_
  split
  iterate 2 exact registerOf _ _
  · exact fail _ _ nofun

theorem share (name target : String) (start : Position) : Straight labels p (Emit.withScopes
    (fun scopes => return ((), ← scopes.bindAlias name target)) start) := by
  refine withScopes (fun scopes a scopes' h => ?_) (Scopes.elastic_bindAlias name target)
  cases halias : scopes.bindAlias name target with
  | error e => simp [halias] at h
  | ok result =>
    simp only [halias] at h
    cases h
    exact (Scopes.Step.bindAlias halias).reach

end Straight

theorem straight_unpackedRegisters (names : List Script.Expr) :
    Straight labels p (unpackedRegisters names) := by
  induction names with
  | nil => exact .pure _
  | cons name rest ih =>
    unfold unpackedRegisters
    split
    · exact .pure _
    · rename_i hnames
      cases hnames
      exact .bind (.storeRegister _ _ _) fun _ => .bind ih fun _ => .pure _
    · exact .fail _ _ nofun

theorem straight_storeDown (h : p.stores false) (registers : List (Script.Ident × Register)) :
    Straight labels p (storeDown registers) := by
  induction registers with
  | nil => exact .pure _
  | cons entry rest ih => exact .bind (.store _ _ h) fun _ => .bind (.op rfl) fun _ => ih

/-! ### Expressions and assignments -/

/-- A discipline that all straight code keeps to. -/
def Discipline.ofStraight (hlabels : labels.Linkable) (logic : Logic)
    (hwords : logic.words = p) {facts : Facts}
    (hfacts : ∀ register, facts (.usable register) ∧ facts (.container register))
    (hstraight : ∀ {α : Type} {known : Facts} {m : Emit α} {Q : α → Facts → Prop},
      Straight labels p m → (∀ a, Q a facts) → logic.Holds known m Q) : Discipline labels where
  toLogic := logic
  stores _ := True
  declares := p.stores
  lastIsString := hstraight .lastIsString fun _ => trivial
  line h := hstraight (.line (hwords ▸ h.isStraight) h.ofCall?_eq_none) fun _ => trivial
  memory _ ho _ := hstraight (.emitted ⟨MemoryOp.ne_of_isPlain ho rfl, by
    simp [Line.store?_of_isPlain ho]⟩ rfl) fun _ => trivial
  call routine := hstraight (.call routine) fun _ => trivial
  callOwn h := hstraight (.line (Or.inr ⟨_, h⟩) (hlabels.ofCall?_eq_none h)) fun _ => trivial
  named _ := hstraight (.pure _) fun register => (hfacts register).1
  registerOf _ _ _ := hstraight (.registerOf _ _) fun register => (hfacts register).1
  containerOf _ := hstraight (.containerOf _) fun found => hfacts found.1
  selectContainer _ := hstraight (.selectContainer _) fun _ => trivial
  declare _ _ _ _ := hstraight (.bindName _ _ _) hfacts
  share _ _ _ _ _ := hstraight (.share _ _ _) fun _ => trivial
  storeNamed _ _ _ _ := hstraight (.storeRegister _ _ _) fun register => (hfacts register).1
  assigned h _ _ _ :=
    logic.assigned (hstraight (.storeRegister _ _ _) fun register => (hfacts register).1)
    fun _ _ _ => hstraight (.store _ _ h) fun _ => trivial
  unpacked h _ _ := hstraight (.bind (straight_unpackedRegisters _) fun _ => straight_storeDown h _)
    fun _ => trivial
  store h _ := hstraight (.store _ _ h) fun _ => trivial

section

variable (hlabels : labels.Linkable) {value : Script.Expr}
include hlabels

/-- What straight code keeps to. -/
def Straight.discipline (p : Wording) : Discipline labels :=
  .ofStraight hlabels (.through p (Straight labels p) (fun _ => True)
    (fun h _ => .fail _ _ fun pool hpool => by simp [hpool, Fault.isOwn] at h) .get_bind)
    rfl (fun _ => ⟨trivial, trivial⟩) fun hm hQ _ _ _ hk => hm.bind fun a => hk a (hQ a)

theorem Straight.of_tame {m : Emit α} (h : (discipline hlabels p).Tame m) :
    Straight labels p m := by
  have := h _ (fun _ => id) Pure.pure fun a _ => .pure a
  rwa [bind_pure] at this

theorem straight_expr (e : Script.Expr) : Straight labels .any (expr labels e) :=
  .of_tame hlabels (Discipline.tame_expr (Script.named_any e) fun _ _ => trivial)

theorem straight_assign {target : Script.Expr} {others : List Script.Expr}
    (hnamed : ∀ e ∈ target :: others, e.Named p) (hvalue : value.Named p)
    (h : (Straight.discipline hlabels p).Assignable value) :
    Straight labels p (assign labels target others value) :=
  .of_tame hlabels
    (Discipline.tame_assign h hnamed hvalue (fun _ _ _ _ => trivial) fun _ _ => trivial)

theorem straight_augment (target : Script.Expr) (operator : Python.BinaryOp) (value : Script.Expr) :
    Straight labels .any (augment labels target operator value) :=
  .of_tame hlabels (Discipline.tame_augment operator trivial (Script.named_any _)
    (Script.named_any _) fun _ _ => trivial)

theorem straight_boundOr (bound : Option Script.Expr) (omitted : Nat) :
    Straight labels .any (boundOr labels bound omitted) :=
  .of_tame hlabels (Discipline.tame_boundOr omitted (Script.forall_bound_any bound)
    fun _ _ _ _ => trivial)

theorem straight_checkBounds (bounds : RangeBounds) (start : Position) :
    Straight labels .any (checkBounds bounds start) :=
  .of_tame hlabels (Discipline.tame_checkBounds (Script.named_any _) trivial)

end

theorem straight_loadRow (container counter : Register) :
    Straight labels p (loadRow container counter) :=
  .bind (.line (by simp [Instr.index, Instr.IsStraight]) rfl) fun _ =>
    .bind (.line (by simp [Instr.recallValue, Instr.IsStraight]) rfl) fun _ =>
    .bind (.op rfl) fun _ => .bind (.line trivial rfl) fun _ => .bind (.call _) fun _ => .op rfl

/-! ### Around functions -/

theorem straight_paramRegisters :
    (params : List Script.Ident) → Straight labels p (paramRegisters params)
  | [] => .pure _
  | _ :: rest => .bind (.bindName _ _ _) fun _ => .bind (straight_paramRegisters rest)
      fun _ => .pure _

end Emit

end Keystroke
