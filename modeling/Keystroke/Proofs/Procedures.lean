import Keystroke.Proofs.LabelSpecification
import Keystroke.Proofs.Lockstep

/-!
# A program is written one procedure after the other

The functions of a module are nested in each other, and so are the actions that write them, but in
the program they stand one after the other: first the code outside functions, then each function
before those inside it. This holds of the program with labels from the pools and of that with labels
that are never used twice, and between two procedures no label is held.
-/

namespace Keystroke

open Script (Ident Stmt)

/-- A function with its label, or the code outside functions. -/
structure Procedure where
  label : Label
  comment : String
  params : List Ident
  body : List Stmt

/-- Writes a procedure: its label, its parameters and its own code. -/
def Procedure.write (labels : FunctionLabels) (procedure : Procedure) : Emit Unit := do
  Emit.commented (.lbl procedure.label) procedure.comment
  let registers ← Emit.paramRegisters procedure.params
  Emit.storeDown registers.reverse
  Emit.ownCode labels procedure.body
  Emit.finishBody

variable {labels : FunctionLabels}

theorem FunctionLabels.exists_get? {name : String}
    (h : labels.has name = true) : ∃ label, labels.get? name = some label :=
  Option.isSome_iff_exists.mp h

namespace Script

mutual

/-- The function that a statement defines and those directly inside it. -/
def Stmt.procedures (labels : FunctionLabels) : Stmt → List Procedure
  | .functionDef _ header body =>
    (labels.get? header.name.name).toList.map (⟨·, header.signature, header.params, body⟩) ++
      Script.functionProcedures labels body
  | _ => []

/-- The functions among some statements and those directly inside them, a function before those
inside it. -/
def functionProcedures (labels : FunctionLabels) : List Stmt → List Procedure
  | [] => []
  | stmt :: rest => stmt.procedures labels ++ functionProcedures labels rest

end

/-- The procedures of a module in the order of their code. -/
def procedures (labels : FunctionLabels) (body : List Stmt) : List Procedure :=
  labels.entry.toList.map (⟨·, Emit.entryComment, [], body.filter Emit.isEntryCode⟩) ++
    functionProcedures labels body

/-! ### Labels -/

variable {labels : FunctionLabels} {body : List Stmt}

theorem map_label_functionProcedures {statements : List Stmt}
    (h : ∀ name ∈ definedNames statements, labels.has name = true) :
    (functionProcedures labels statements).map (some ·.label) =
      (definedNames statements).map labels.get? := by
  induction statements using functions_induction with
  | nil => rfl
  | other s rest hnot ih =>
    rw [definedNames, List.forall_mem_append] at h
    simpa [functionProcedures, Stmt.procedures, definedNames, Stmt.definedNames] using ih h.2
  | functionDef start header body rest hbody hrest =>
    rw [definedNames, Stmt.definedNames, List.forall_mem_append, List.forall_mem_cons] at h
    rw [functionProcedures, Stmt.procedures, definedNames, Stmt.definedNames, List.map_append,
      List.map_append, List.map_append, List.map_cons, hbody h.1.2, hrest h.2]
    obtain ⟨label, hlabel⟩ := FunctionLabels.exists_get? h.1.1
    rw [hlabel]
    rfl

theorem map_label_procedures (h : ∀ name ∈ definedNames body, labels.has name = true) :
    (procedures labels body).map (some ·.label) =
      labels.entry.toList.map some ++ (definedNames body).map labels.get? := by
  rw [procedures, List.map_append, map_label_functionProcedures h, List.map_map]
  rfl

theorem isOwn_of_mem_procedures (h : labels.Assigned (definedNames body)) :
    ∀ procedure ∈ procedures labels body, procedure.label.IsOwn := by
  intro procedure hmem
  have hlabel : some procedure.label ∈ (procedures labels body).map (some ·.label) :=
    List.mem_map_of_mem hmem
  rw [map_label_procedures fun name hname => (h.has_iff name).mpr hname] at hlabel
  rcases List.mem_append.mp hlabel with hlabel | hlabel
  · exact h.entryOwn _ (by simpa using hlabel)
  · obtain ⟨name, -, hname⟩ := List.mem_map.mp hlabel
    exact h.own name _ hname

end Script

/-- The label of a procedure is not a number. -/
theorem Instr.isPlain_lbl {label : Label} (h : label.IsOwn) : (Instr.lbl label).IsPlain := by
  refine ⟨?_, by simp⟩
  rintro n hn
  rw [Instr.lbl.inj hn] at h
  exact h

/-! ### Two listings -/

/-- Two listings grow by procedures. Each is written in lockstep, from aligned states to aligned
states, with no label held before or after it. -/
inductive Written (labels : FunctionLabels) :
    List Procedure → Listing × Listing → Listing × Listing → Prop where
  | nil (listings : Listing × Listing) : Written labels [] listings listings
  | cons {procedure : Procedure} {rest : List Procedure} {s t s' t' : Emitter}
      {listings : Listing × Listing} (hstart : Aligned [] [] [] s t)
      (hfst : (procedure.write labels).run s = .ok ((), s'))
      (hsnd : (procedure.write labels).run t = .ok ((), t')) (hend : Aligned [] [] [] s' t')
      (hrest : Written labels rest (s'.listing, t'.listing) listings) :
      Written labels (procedure :: rest) (s.listing, t.listing) listings

theorem Written.trans {first second : List Procedure}
    {p q r : Listing × Listing} (h : Written labels first p q) (h' : Written labels second q r) :
    Written labels (first ++ second) p r := by
  induction h with
  | nil => exact h'
  | cons hstart hfst hsnd hend _ ih => exact .cons hstart hfst hsnd hend (ih h')

/-! ### Around a function -/

/-- The state in which a function begins: it has a scope of its own, and no loop around it. -/
def Emitter.enter (s : Emitter) : Emitter :=
  { s with loops := [], scopes := s.scopes.push }

/-- The state behind a function, with the loops of the state before it. -/
def Emitter.leave (s before : Emitter) : Emitter :=
  { s with loops := before.loops, scopes := s.scopes.pop }

theorem Aligned.enter {s t : Emitter} (h : Aligned [] [] [] s t) :
    Aligned [] [] [] s.enter t.enter :=
  { h with scopes := congrArg Scopes.push h.scopes, loopsFst := rfl, loopsSnd := rfl }

theorem Aligned.leave {s t s₀ t₀ : Emitter} (h : Aligned [] [] [] s t)
    (h₀ : Aligned [] [] [] s₀ t₀) : Aligned [] [] [] (s.leave s₀) (t.leave t₀) :=
  { h with
    scopes := congrArg Scopes.pop h.scopes
    loopsFst := h₀.loopsFst
    loopsSnd := h₀.loopsSnd }

namespace Emit

variable {labels : FunctionLabels} {s s' : Emitter} {procedure : Procedure}

/-- An action writes procedures, from aligned states to aligned states. -/
def Composes (labels : FunctionLabels) (procedures : List Procedure) (m : Emit Unit) : Prop :=
  ∀ s t s', Aligned [] [] [] s t → m.run s = .ok ((), s') →
    ∃ t', m.run t = .ok ((), t') ∧ Aligned [] [] [] s' t' ∧
      Written labels procedures (s.listing, t.listing) (s'.listing, t'.listing)

namespace Composes

theorem pure : Composes labels [] (pure () : Emit Unit) := by
  intro s t s' hal hrun
  cases hrun
  exact ⟨t, rfl, hal, .nil _⟩

theorem fail {procedures : List Procedure} {fault : Fault} {start : Position} :
    Composes labels procedures (Emit.fail fault start : Emit Unit) := by
  intro s t s' _ hrun
  cases hrun

theorem bind {first second : List Procedure} {m : Emit Unit} {f : Unit → Emit Unit}
    (hm : Composes labels first m) (hf : Composes labels second (f ())) :
    Composes labels (first ++ second) (m >>= f) := by
  intro s t s' hal hrun
  obtain ⟨⟨⟩, s₁, h₁, h₂⟩ := run_bind.mp hrun
  obtain ⟨t₁, ht₁, hal₁, hwritten₁⟩ := hm s t s₁ hal h₁
  obtain ⟨t', ht', hal', hwritten₂⟩ := hf s₁ t₁ s' hal₁ h₂
  exact ⟨t', run_bind.mpr ⟨(), t₁, ht₁, ht'⟩, hal', hwritten₁.trans hwritten₂⟩

end Composes

/-! ### Procedures -/

theorem run_finishBody {u : Unit} (h : finishBody.run s = .ok (u, s')) :
    s.listing.instrs.getLast? = some (.op .returns) ∧ s' = s ∨
      (op .returns).run s = .ok (u, s') := by
  unfold finishBody at h
  rw [run_get_bind] at h
  dsimp only at h
  split at h
  · rename_i hlast
    cases h
    refine Or.inl ⟨?_, rfl⟩
    rw [Listing.instrs]
    simpa using hlast
  · exact Or.inr h

theorem settles_write (hlabels : labels.Linkable) (hown : procedure.label.IsOwn) :
    Settles (procedure.write labels) := by
  refine Twin.bind (Steady.same (Instr.isPlain_lbl hown) rfl).settles fun _ _ => ?_
  refine (Steady.of_straight labels (straight_paramRegisters _)).outside.bind fun _ registers => ?_
  rintro s t a s' ⟨rfl, hal⟩ hrun
  have hstore : Settles (storeDown registers.reverse) :=
    (Steady.of_straight labels (straight_storeDown trivial _)).settles
  exact (Twin.bind hstore fun _ _ => Twin.bind (settles_ownCode hlabels _) fun _ _ =>
    settles_finishBody) s t a s' hal hrun

theorem composes_write (hlabels : labels.Linkable) (hown : procedure.label.IsOwn) :
    Composes labels [procedure] (procedure.write labels) := by
  intro s t s' hal hrun
  obtain ⟨⟨⟩, t', hrun', hal'⟩ := settles_write hlabels hown s t () s' hal hrun
  exact ⟨t', hrun', hal', .cons hal hrun hrun' hal' (.nil _)⟩

variable {header : Script.FunctionHeader} {body : List Stmt} {nested : Emit Unit} {label : Label}

theorem function_eq_write (hlabel : labels.get? header.name.name = some label) :
    function labels header (ownCode labels body) nested = (do
      let loops := (← get).loops
      modify fun emitter => { emitter with loops := [], scopes := emitter.scopes.push }
      Procedure.write labels ⟨label, header.signature, header.params, body⟩
      nested
      modify fun emitter => { emitter with loops, scopes := emitter.scopes.pop }) := by
  simp [function_eq, hlabel, Procedure.write]

theorem run_function (hlabel : labels.get? header.name.name = some label) :
    (function labels header (ownCode labels body) nested).run s = .ok ((), s') ↔ ∃ s₁ s₂,
      (Procedure.write labels ⟨label, header.signature, header.params, body⟩).run s.enter =
        .ok ((), s₁) ∧ nested.run s₁ = .ok ((), s₂) ∧ s' = s₂.leave s := by
  rw [function_eq_write hlabel, run_get_bind, run_modify_bind]
  constructor
  · intro hrun
    obtain ⟨⟨⟩, s₁, h₁, hrun⟩ := run_bind.mp hrun
    obtain ⟨⟨⟩, s₂, h₂, hrun⟩ := run_bind.mp hrun
    cases hrun
    exact ⟨s₁, s₂, h₁, h₂, rfl⟩
  · rintro ⟨s₁, s₂, h₁, h₂, rfl⟩
    exact run_bind.mpr ⟨(), s₁, h₁, run_bind.mpr ⟨(), s₂, h₂, rfl⟩⟩

theorem composes_function (hlabels : labels.Linkable) {procedures : List Procedure}
    (hnested : Composes labels procedures nested) :
    Composes labels ((labels.get? header.name.name).toList.map
      (⟨·, header.signature, header.params, body⟩) ++ procedures)
      (function labels header (ownCode labels body) nested) := by
  cases hlabel : labels.get? header.name.name with
  | none =>
    rw [function_eq]
    rw [hlabel]
    exact .fail
  | some label =>
    intro s t s' hal hrun
    obtain ⟨s₁, s₂, h₁, h₂, rfl⟩ := (run_function hlabel).mp hrun
    obtain ⟨t₁, ht₁, hal₁, hwritten₁⟩ :=
      composes_write hlabels (hlabels _ _ hlabel) _ _ s₁ hal.enter h₁
    obtain ⟨t₂, ht₂, hal₂, hwritten₂⟩ := hnested s₁ t₁ s₂ hal₁ h₂
    exact ⟨t₂.leave t, (run_function hlabel).mpr ⟨t₁, t₂, ht₁, ht₂, rfl⟩, hal₂.leave hal,
      hwritten₁.trans hwritten₂⟩

theorem composes_functions (hlabels : labels.Linkable) (statements : List Stmt) :
    Composes labels (Script.functionProcedures labels statements)
      (functions labels statements) := by
  induction statements using Script.functions_induction with
  | nil => exact .pure
  | other s rest hnot ih =>
    simpa [functions, definedFunction, Script.functionProcedures, Stmt.procedures] using ih
  | functionDef start header body rest hbody hrest =>
    exact .bind (composes_function hlabels hbody) hrest

theorem ownCode_eq_block {statements : List Stmt}
    (h : ∀ statement ∈ statements, statement.definedNames = []) :
    ownCode labels statements = block labels statements := by
  induction statements using ownCode.induct with
  | case1 => simp [ownCode, block]
  | case2 _ _ _ rest ih => simpa [Stmt.definedNames] using h _ List.mem_cons_self
  | case3 statement rest hnot ih =>
    rw [ownCode, block]
    · rw [ih fun s hs => h s (List.mem_cons_of_mem _ hs)]
    · exact hnot

/-- The code outside functions is a procedure without parameters. -/
theorem entryCode_eq_write (hlabel : labels.entry = some label) (body : List Stmt) :
    entryCode labels (body.filter isEntryCode) =
      Procedure.write labels ⟨label, entryComment, [], body.filter isEntryCode⟩ := by
  have hcode : ownCode labels (body.filter isEntryCode) =
      block labels (body.filter isEntryCode) := by
    refine ownCode_eq_block fun statement hstatement => ?_
    have hkind := (List.mem_filter.mp hstatement).2
    cases statement with
    | functionDef _ _ _ => cases hkind
    | _ => rfl
  simp [entryCode, hlabel, Procedure.write, paramRegisters, storeDown, hcode]

theorem composes_entryCode (hlabels : labels.Linkable)
    (hentry : ∀ label ∈ labels.entry, label.IsOwn) (body : List Stmt) :
    Composes labels (labels.entry.toList.map (⟨·, entryComment, [], body.filter isEntryCode⟩))
      (entryCode labels (body.filter isEntryCode)) := by
  cases hlabel : labels.entry with
  | none =>
    unfold entryCode
    rw [hlabel]
    dsimp only
    split
    · exact .pure
    · exact .fail
  | some label =>
    rw [entryCode_eq_write hlabel]
    exact composes_write hlabels (hentry label hlabel)

end Emit

/-- The listing of a module grows by its procedures, and beside it one with labels that are never
used twice. The two differ in label numbers only, and need the same routines. -/
theorem Listing.written_ofScript {body : List Stmt} {limit : Nat}
    {listing : Listing} (hlabels : FunctionLabels.assign body = .ok labels)
    (h : ofScript labels body limit = .ok listing) :
    ∃ twin pools next, ofScript labels body limit .endless = .ok twin ∧
      twin.needed = listing.needed ∧ Tracks listing.instrs twin.instrs pools next [] ∧
      Written labels (Script.procedures labels body) ({}, {}) (listing, twin) := by
  have hassigned := FunctionLabels.assigned_of_assign hlabels
  obtain ⟨⟨⟩, s, hrun, rfl⟩ := ofScript_eq_ok.mp h
  have hcomposes :
      Emit.Composes labels (Script.procedures labels body) (Emit.program labels body) :=
    .bind (Emit.composes_entryCode hassigned.own hassigned.entryOwn body)
      (Emit.composes_functions hassigned.own body)
  obtain ⟨t, hrun', hal, hwritten⟩ := hcomposes
    _ _ s (.init (.ofLimit limit)) hrun
  obtain ⟨pools, next, -, -, htracks⟩ := hal.tracks
  exact ⟨t.listing, pools, next, ofScript_eq_ok.mpr ⟨(), t, hrun', rfl⟩, hal.needed, htracks,
    hwritten⟩

end Keystroke
