import Keystroke.Proofs.FlowDiscipline
import Keystroke.Proofs.LabelSpecification

/-!
# The lines of a program

Which lines a program can have, and which labels of functions stand in it. How many registers there
are makes no difference to them.
-/

namespace Keystroke

open Script

variable {labels : FunctionLabels} {body : List Script.Stmt} {limit : Nat} {jumps : LabelSupply}
  {listing : Listing}

/-- Whether an instruction can stand in the program of a script. -/
def Instr.IsLinked (labels : FunctionLabels) : Instr → Prop
  | .xeq label => (∃ routine : Routine, label = .global routine.name) ∨
      ∃ name, labels.get? name = some label
  | .verbatim _ => False
  | _ => True

/-- A number with a point is spelled as numbers are. -/
def Instr.IsSpelled (p : Vocabulary) : Instr → Prop
  | .decimal spelling => p.number spelling
  | _ => True

/-- The label of a function or of an entry that an instruction places. -/
def Instr.ownLabel? : Instr → Option Label
  | .lbl (.number _) => none
  | .lbl label => some label
  | _ => none

section

variable {labels : FunctionLabels} {p : Vocabulary} {instr : Instr}

theorem Instr.IsStraight.isLinked (h : instr.IsStraight labels p) : instr.IsLinked labels := by
  cases instr with
  | xeq label => exact h
  | verbatim text => exact h
  | _ => exact trivial

theorem Instr.IsStraight.isSpelled (h : instr.IsStraight labels p) : instr.IsSpelled p := by
  cases instr with
  | decimal spelling => exact h
  | _ => exact trivial

theorem Instr.IsStraight.ownLabel?_eq_none (h : instr.IsStraight labels p) :
    instr.ownLabel? = none := by
  cases instr with
  | lbl label => exact h.elim
  | _ => rfl

end

namespace Listing

/-- A listing grows by lines that store no text to a variable, and by the code of assignments. -/
inductive Grows (labels : FunctionLabels) (p : Vocabulary) (first : Listing) : Listing → Prop where
  | refl : Grows labels p first first
  | line {last : Listing} {line : Line} (h : Grows labels p first last)
      (hline : line.store? ≠ some true) : Grows labels p first (last.write line)
  | assign {s s' : Emitter} {target value : Expr} {others : List Expr}
      (h : Grows labels p first s.listing) (hnamed : ∀ e ∈ target :: others, e.Named p)
      (hvalue : value.Named p)
      (hrun : (Emit.assign labels target others value).run s = .ok ((), s')) :
      Grows labels p first s'.listing

variable {p : Vocabulary} {first mid last : Listing} {code : List Line}

theorem Grows.trans (h : first.Grows labels p mid) (h' : mid.Grows labels p last) :
    first.Grows labels p last := by
  induction h' with
  | refl => exact h
  | line _ hline ih => exact ih.line hline
  | assign _ hnamed hvalue hrun ih => exact ih.assign hnamed hvalue hrun

theorem Grows.writeAll (h : ∀ line ∈ code, line.store? ≠ some true) :
    first.Grows labels p (first.writeAll code) := by
  induction code generalizing first with
  | nil => exact .refl
  | cons line rest ih =>
    rw [List.forall_mem_cons] at h
    exact (Grows.refl.line h.1).trans (ih h.2)

end Listing

namespace Emit

variable {labels : FunctionLabels} {p : Vocabulary} {own own' : List Label} {α β : Type}

/-- An action writes lines of a program, among them the labels `own` of functions in this order. -/
structure Writes (labels : FunctionLabels) (p : Vocabulary) (own : List Label) (m : Emit α) :
    Prop where
  code : ∀ s a s', m.run s = .ok (a, s') → s.scopes.Reach s'.scopes ∧
    s.listing.Grows labels p s'.listing ∧ ∃ code, s'.listing = s.listing.writeAll code ∧
    (∀ line ∈ code, line.instr.IsLinked labels ∧ line.instr.IsSpelled p) ∧
    code.filterMap (·.instr.ownLabel?) = own
  elastic : Elastic m

namespace Writes

variable {m : Emit α} {f : α → Emit β} {start : Position} {instr : Instr} {loop : Loop}
  {Q : α → Facts → Prop}

/-! ### Composition -/

theorem of_wording {stores : Bool → Prop} (hm : Straight labels ⟨p, stores⟩ m)
    (hgrows : ∀ s a s' code, m.run s = .ok (a, s') → s'.listing = s.listing.writeAll code →
      (∀ line ∈ code, ∀ alpha ∈ line.store?, stores alpha) → s.listing.Grows labels p s'.listing) :
    Writes labels p [] m where
  code s a s' hrun := by
    obtain ⟨code, scopes, hcode, hreach, hwrite⟩ := hm.repeats s a s' hrun
    have hs' := hwrite s rfl rfl
    rw [hrun] at hs'
    cases hs'
    refine ⟨hreach, hgrows s a _ code hrun rfl fun line hline => (hcode line hline).2, code, rfl,
      fun line hline => ⟨(hcode line hline).1.isLinked, (hcode line hline).1.isSpelled⟩, ?_⟩
    rw [List.filterMap_eq_nil_iff]
    exact fun line hline => (hcode line hline).1.ownLabel?_eq_none
  elastic := hm.elastic

theorem of_straight (hm : Straight labels ⟨p, (· = false)⟩ m) : Writes labels p [] m :=
  of_wording hm fun _ _ _ _ _ hlisting hcode => hlisting ▸ .writeAll fun line hline htext =>
    Bool.false_ne_true (hcode line hline true htext).symm

theorem pure (a : α) : Writes labels p [] (pure a : Emit α) :=
  of_straight (.pure a)

theorem fail {fault : Fault} :
    Writes labels p own (Emit.fail fault start : Emit α) where
  code s a s' hrun := by cases hrun
  elastic := .fail

theorem append (hm : Writes labels p own m) (hf : ∀ a, Writes labels p own' (f a)) :
    Writes labels p (own ++ own') (m >>= f) where
  code s b s' hrun := by
    obtain ⟨a, s₁, h₁, h₂⟩ := run_bind.mp hrun
    obtain ⟨hreach₁, hgrows₁, code₁, hs₁, hcode₁, hown₁⟩ := hm.code s a s₁ h₁
    obtain ⟨hreach₂, hgrows₂, code₂, hs₂, hcode₂, hown₂⟩ := (hf a).code s₁ b s' h₂
    refine ⟨hreach₁.trans hreach₂, hgrows₁.trans hgrows₂, code₁ ++ code₂, ?_, ?_, ?_⟩
    · rw [hs₂, hs₁, Listing.writeAll_append]
    · intro line hline
      rcases List.mem_append.mp hline with hline | hline
      · exact hcode₁ line hline
      · exact hcode₂ line hline
    · rw [List.filterMap_append, hown₁, hown₂]
  elastic := hm.elastic.bind_of fun _ a _ _ => (hf a).elastic

/-- An action without labels of functions and one that follows it. -/
theorem bind (hm : Writes labels p [] m) (hf : ∀ a, Writes labels p own (f a)) :
    Writes labels p own (m >>= f) :=
  append hm hf

/-- An action and one without labels of functions that follows it. -/
theorem andThen (hm : Writes labels p own m) (hf : ∀ a, Writes labels p [] (f a)) :
    Writes labels p own (m >>= f) := by
  have := append hm hf
  rwa [List.append_nil] at this

/-- An action that looks at the state, but not at the number of registers. -/
theorem get_bind {f : Emitter → Emit α} (hlimit : ∀ s limit, f (Emitter.withLimit s limit) = f s)
    (hf : ∀ s, Writes labels p own (f s)) : Writes labels p own (get >>= f) where
  code s a s' hrun := (hf s).code s a s' hrun
  elastic := .get_bind hlimit fun s => (hf s).elastic

/-- A change that leaves the listing as it is. -/
theorem modify {f : Emitter → Emitter} (hlisting : ∀ s, (f s).listing = s.listing)
    (hscopes : ∀ s : Emitter, s.scopes.Reach (f s).scopes)
    (helastic : Elastic (modify f : Emit Unit)) : Writes labels p [] (modify f : Emit Unit) where
  code s a s' hrun := by
    cases hrun
    exact ⟨hscopes s, hlisting s ▸ .refl, [], hlisting s, by simp, rfl⟩
  elastic := helastic

theorem emitted {comment : Option String} (hlinked : instr.IsLinked labels)
    (hspelled : instr.IsSpelled p) (hcall : Routine.ofCall? instr = none)
    (hstore : (Line.mk instr comment .plain).store? = none) :
    Writes labels p instr.ownLabel?.toList (modifyListing (·.emit instr comment)) where
  code s a s' hrun := by
    cases hrun
    have hlisting : s.listing.emit instr comment = s.listing.write ⟨instr, comment, .plain⟩ :=
      Listing.emit_eq_write hcall
    refine ⟨.refl _, ?_, [⟨instr, comment, .plain⟩], hlisting,
      List.forall_mem_singleton.mpr ⟨hlinked, hspelled⟩, ?_⟩
    · show s.listing.Grows labels p (s.listing.emit instr comment)
      rw [hlisting]
      exact .line .refl (by simp [hstore])
    · cases hown : instr.ownLabel? <;> simp [hown]
  elastic := .modify (fun _ => rfl) fun _ _ => rfl

/-- A line with the label of a function. -/
theorem label {label : Label} {comment : String} (h : label.IsOwn) :
    Writes labels p [label] (commented (.lbl label) comment) := by
  have hline :
      Writes labels p (Instr.lbl label).ownLabel?.toList (commented (.lbl label) comment) :=
    emitted trivial trivial rfl rfl
  cases label with
  | number n => exact h.elim
  | _ => exact hline

theorem line (hlinked : instr.IsLinked labels) (hspelled : instr.IsSpelled p)
    (hlabel : instr.ownLabel? = none) (hcall : Routine.ofCall? instr = none) :
    Writes labels p [] (Emit.line instr) := by
  have hline : Writes labels p instr.ownLabel?.toList (Emit.line instr) :=
    emitted hlinked hspelled hcall Line.store?_uncommented
  rwa [hlabel] at hline

theorem op (o : Op) : Writes labels p [] (Emit.op o) :=
  line trivial trivial rfl rfl

theorem jump (n : Nat) : Writes labels p [] (Emit.jump n) :=
  line trivial trivial rfl rfl

theorem place (n : Nat) : Writes labels p [] (Emit.place n) :=
  line trivial trivial rfl rfl

theorem withJumps {step : LabelSupply → Except JumpPool (α × LabelSupply)} :
    Writes labels p [] (Emit.withJumps step start) where
  code s a s' hrun := by
    obtain ⟨jumps, -, rfl⟩ := run_withJumps.mp hrun
    exact ⟨.refl _, .refl, [], rfl, by simp, rfl⟩
  elastic := .withJumps

/-- A change of the jump labels or the loops. -/
theorem control {f : Emitter → Emitter} (hlisting : ∀ s, (f s).listing = s.listing)
    (hscopes : ∀ s, (f s).scopes = s.scopes)
    (hlimit : ∀ s limit, f (s.withLimit limit) = (f s).withLimit limit) :
    Writes labels p [] (MonadState.modifyGet fun s => ((), f s) : Emit Unit) :=
  modify hlisting (fun s => hscopes s ▸ .refl _) (.modify (fun s => by rw [hscopes]) hlimit)

theorem placeSkip (n : Nat) : Writes labels p [] (Emit.placeSkip n) :=
  bind (place n) fun _ => control (fun _ => rfl) (fun _ => rfl) fun _ _ => rfl

theorem placeSkip? : (label : Option Nat) → Writes labels p [] (Emit.placeSkip? label)
  | none => pure ()
  | some n => placeSkip n

theorem closeCounted {counter : Register} :
    Writes labels p [] (Emit.closeCounted counter loop) :=
  bind (placeSkip? _) fun _ => bind (line trivial trivial rfl rfl) fun _ =>
    bind (jump _) fun _ => placeSkip? _

theorem loopBody {body : Emit Unit} (hbody : Writes labels p [] body) :
    Writes labels p [] (Emit.loopBody loop body) := by
  refine bind (control (fun _ => rfl) (fun _ => rfl) fun _ _ => rfl) fun _ => bind hbody fun _ =>
    get_bind (fun _ _ => rfl) fun s => ?_
  split
  · exact pure _
  · exact bind (control (fun _ => rfl) (fun _ => rfl) fun _ _ => rfl) fun _ => pure _

/-! ### Statements -/

/-- How actions that write no label of a function follow each other. -/
def logic (labels : FunctionLabels) (p : Vocabulary) : Logic :=
  .through p (Writes labels p []) (fun _ => True) (fun _ _ => fail)
    fun hscopes => get_bind fun s limit => hscopes _ s limit rfl

theorem holds {known : Facts} (hm : Writes labels p [] m) (hQ : ∀ a, Q a fun _ => True) :
    (logic labels p).Holds known m Q :=
  fun _ _ _ hk => hm.bind fun a => hk a (hQ a)

theorem of_holds (h : (logic labels p).Holds (fun _ => False) m Q) : Writes labels p [] m := by
  have := h (fun _ => False.elim) Pure.pure fun a _ => pure a
  rwa [bind_pure] at this

/-- What statements keep to. -/
def discipline (hlabels : labels.Linkable) (p : Vocabulary) : FlowDiscipline labels where
  toDiscipline := .ofStraight hlabels (logic labels p) rfl (fun _ => ⟨trivial, trivial⟩)
    fun hm => (of_straight hm).holds
  sourceOf _ := holds (of_straight (.sourceOf _)) fun _ => ⟨trivial, trivial⟩
  anonymous _ := holds (of_straight (.anonymous _)) fun _ => trivial
  fill h _ := holds (of_straight (.store _ _ h)) fun _ => trivial
  skipLabel _ := withJumps.holds fun _ => trivial
  loopLabel _ := withJumps.holds fun _ => trivial
  place n := (place n).holds fun _ => trivial
  placeSkip _ := (placeSkip _).holds fun _ => trivial
  jump _ := (jump _).holds fun _ => trivial
  test hinstr _ := by
    refine holds (bind ?_ fun _ => jump _) fun _ => trivial
    cases hinstr <;> exact line trivial trivial rfl rfl
  returns := (op _).holds fun _ => trivial
  loopBody _ hbody := (loopBody (of_holds (hbody _))).holds fun _ => .trivial
  setLoop _ := holds (control (fun _ => rfl) (fun _ => rfl) fun _ _ => rfl) fun _ => trivial
  loops hlimit hf hknown _ k hk := by
    rw [bind_assoc]
    exact get_bind (fun s limit => by rw [hlimit s limit])
      fun s => hf s _ hknown (fun _ _ => .trivial) (fun _ => id) k hk

theorem assigns (hlabels : labels.Linkable) : (discipline hlabels p).Assigns :=
  ⟨rfl, fun hnamed hvalue _ _ _ =>
    (of_wording (straight_assign hlabels hnamed hvalue (.of_declares fun _ => trivial))
      fun _ _ _ _ hrun _ _ => .assign .refl hnamed hvalue hrun).holds fun _ => trivial⟩

end Writes

theorem writes_block (hlabels : labels.Linkable) (statements : List Stmt)
    (h : ∀ s ∈ statements, s.Named p) : Writes labels p [] (block labels statements) :=
  .of_holds
    (FlowDiscipline.tame_block (D := Writes.discipline hlabels p)
      (Writes.assigns hlabels) statements h
    (fun _ _ => trivial) _)

/-! ### Functions and programs -/

theorem writes_finishBody : Writes labels p [] finishBody := by
  refine Writes.get_bind (fun _ _ => rfl) fun s => ?_
  dsimp only
  split
  · exact .pure ()
  · exact .op _

theorem writes_ownCode (hlabels : labels.Linkable) (statements : List Stmt)
    (h : ∀ s ∈ statements, s.Named p) : Writes labels p [] (ownCode labels statements) :=
  .of_holds
    (FlowDiscipline.tame_ownCode (D := Writes.discipline hlabels p) (Writes.assigns hlabels) h
    (fun _ _ => trivial) _)

theorem writes_function (hlabels : labels.Linkable) {header : FunctionHeader}
    {body nested : Emit Unit} (hbody : Writes labels p [] body)
    (hnested : Writes labels p own nested) :
    Writes labels p ((labels.get? header.name.name).toList ++ own)
      (function labels header body nested) := by
  rw [function_eq]
  split
  · exact .fail
  · rename_i label hlabel
    rw [hlabel]
    have hpush :
        Elastic (modify fun s : Emitter => { s with loops := [], scopes := s.scopes.push }) :=
      .modify (fun _ => rfl) fun _ _ => rfl
    have hpop :
        ∀ loops, Elastic (modify fun s : Emitter => { s with loops, scopes := s.scopes.pop }) :=
      fun loops => .modify (fun s => s.scopes.next_pop) fun s limit => by
        simp only [Emitter.withLimit, Scopes.pop_withLimit]
    exact .get_bind (fun _ _ => rfl) fun _ =>
      .bind (.modify (fun _ => rfl) (fun _ => (Scopes.Step.push _).reach) hpush) fun _ =>
      .append (.label (hlabels _ _ hlabel)) fun _ =>
      .bind (.of_straight (straight_paramRegisters _)) fun _ =>
      .bind (.of_straight (straight_storeDown rfl _)) fun _ => .bind hbody fun _ =>
      .bind writes_finishBody fun _ => .andThen hnested fun _ =>
      .modify (fun _ => rfl) (fun _ => (Scopes.Step.pop _).reach) (hpop _)

theorem writes_functions (hlabels : labels.Linkable) (statements : List Stmt)
    (h : ∀ s ∈ statements, s.Named p) :
    Writes labels p ((definedNames statements).filterMap labels.get?)
      (functions labels statements) := by
  induction statements using functions_induction with
  | nil => exact .pure ()
  | other s rest hnot ih =>
    rw [List.forall_mem_cons] at h
    simpa [functions, definedFunction, definedNames, Script.Stmt.definedNames] using ih h.2
  | functionDef start header body rest hbody hrest =>
    rw [List.forall_mem_cons] at h
    obtain ⟨hfirst, hnamed'⟩ := h
    have hnamed : ∀ s ∈ body, s.Named p := by
      cases hfirst with
      | functionDef _ _ _ hnamed => exact hnamed
    have hfunction : Writes labels p ((labels.get? header.name.name).toList ++
        (definedNames body).filterMap labels.get?) (function labels header
          (ownCode labels body) (functions labels body)) :=
      writes_function hlabels (writes_ownCode hlabels body hnamed) (hbody hnamed)
    rw [functions, definedNames, Script.Stmt.definedNames,
      List.filterMap_append]
    refine .append ?_ fun _ => hrest hnamed'
    cases hlabel : labels.get? header.name.name with
    | none =>
      rw [hlabel] at hfunction
      rwa [List.filterMap_cons_none hlabel]
    | some label =>
      rw [hlabel] at hfunction
      rwa [List.filterMap_cons_some hlabel]

theorem writes_entryCode (hlabels : labels.Linkable) (hentry : ∀ label ∈ labels.entry, label.IsOwn)
    (statements : List Stmt) (h : ∀ s ∈ statements, s.Named p) :
    Writes labels p labels.entry.toList (entryCode labels statements) := by
  unfold entryCode
  split
  · rename_i label hlabel
    rw [hlabel]
    exact .andThen (.label (hentry _ hlabel)) fun _ => .bind (writes_block hlabels _ h) fun _ =>
      writes_finishBody
  · rename_i hnone
    rw [hnone]
    split
    · exact .pure ()
    · exact .fail

theorem writes_program (hlabels : labels.Linkable) (hentry : ∀ label ∈ labels.entry, label.IsOwn)
    (statements : List Stmt) (h : ∀ s ∈ statements, s.Named p) :
    Writes labels p (labels.entry.toList ++ (definedNames statements).filterMap labels.get?)
      (program labels statements) :=
  .append (writes_entryCode hlabels hentry _ fun s hs => h s (List.mem_filter.mp hs).1) fun _ =>
    writes_functions hlabels statements h

end Emit

theorem Listing.isSpelled_ofScript {p : Vocabulary} (hlabels : labels.Linkable)
    (hentry : ∀ label ∈ labels.entry, label.IsOwn) (hbody : ∀ s ∈ body, s.Named p)
    (h : Listing.ofScript labels body limit jumps = .ok listing) :
    ∀ instr ∈ listing.instrs, instr.IsSpelled p := by
  obtain ⟨u, s, hrun, rfl⟩ := ofScript_eq_ok.mp h
  obtain ⟨-, -, code, hlisting, hcode, -⟩ :=
    (Emit.writes_program hlabels hentry body hbody).code _ u s hrun
  intro instr hinstr
  rw [hlisting] at hinstr
  obtain ⟨line, hline, rfl⟩ := List.mem_map.mp (by simpa [Listing.instrs] using hinstr)
  exact (hcode line hline).2

theorem Listing.code_ofScript (hlabels : labels.Linkable)
    (hentry : ∀ label ∈ labels.entry, label.IsOwn)
    (h : Listing.ofScript labels body limit jumps = .ok listing) :
    (∀ instr ∈ listing.instrs, instr.IsLinked labels) ∧
      listing.instrs.filterMap Instr.ownLabel? =
        labels.entry.toList ++ (definedNames body).filterMap labels.get? ∧
      ∀ routine, routine ∈ listing.needed ↔ Routine.call routine ∈ listing.instrs := by
  obtain ⟨u, s, hrun, rfl⟩ := ofScript_eq_ok.mp h
  obtain ⟨-, -, code, hlisting, hcode, hown⟩ :=
    (Emit.writes_program hlabels hentry body (named_any_stmts body)).code _ u s hrun
  have hinstrs : s.listing.instrs = code.map (·.instr) := by
    rw [hlisting, Listing.instrs_writeAll]
    rfl
  refine ⟨fun instr hinstr => ?_, ?_, fun routine => ?_⟩
  · rw [hinstrs] at hinstr
    obtain ⟨line, hline, rfl⟩ := List.mem_map.mp hinstr
    exact (hcode line hline).1
  · rw [hinstrs, List.filterMap_map]
    exact hown
  · rw [hinstrs, hlisting, Listing.mem_needed_writeAll]
    simp

end Keystroke
