import Keystroke.Proofs.VisitedStates
import Keystroke.Proofs.SourcePositions

/-!
# The line that a report points at

An error carries the place of a node of the source text, and is reported with the line of that
place. Each pass takes its places from the tree that it works on: the check of the tree from the
syntax tree, the others from the script. So what holds of the places of all nodes holds of the place
of an error, and the place that stands for none is never reported.
-/

namespace Keystroke

open Script (Stmt)

/-! ### The places of labels -/

namespace FunctionLabels

open Script (Ensures)

variable {place : Position → Prop} {p : Vocabulary} {labels : FunctionLabels} {body : List Stmt}
  {start : Position} {afterFunction : Bool}

theorem ensures_rejectReserved {label : Label} (h : place start) :
    Ensures place (rejectReserved label start) fun _ => True := by
  cases label with
  | global name => exact .ite h (.ok trivial)
  | _ => exact .ok trivial

theorem ensures_assignFunction {header : Script.FunctionHeader} (h : place header.name.start) :
    Ensures place (labels.assignFunction header) fun _ => True := by
  unfold assignFunction
  dsimp only
  split
  · exact h
  · exact .bind (ensures_rejectReserved h) fun _ _ => .ok trivial

theorem ensures_assignNested (h : ∀ s ∈ body, s.Named p) :
    Ensures p.place (assignNested body labels) fun _ => True := by
  induction body using Script.functions_induction generalizing labels with
  | nil => exact .ok trivial
  | other s rest hnot ih =>
    simp only [assignNested, assignDefined]
    exact ih (List.forall_mem_cons.mp h).2
  | functionDef start header body rest hbody hrest =>
    rw [List.forall_mem_cons] at h
    cases h.1 with
    | functionDef _ hname _ hinside =>
      exact .bind (.bind (ensures_assignFunction hname.place) fun _ _ => hbody hinside)
        fun _ _ => hrest h.2

theorem ensures_assignEntry {args : List Script.Expr} (h : place start) :
    Ensures place (labels.assignEntry afterFunction start args) fun _ => True := by
  unfold assignEntry
  split_ifs
  · exact h
  · exact h
  · split
    · exact h
    · rename_i name _
      cases labels.setEntry name with
      | mk label labels => exact .bind (ensures_rejectReserved h) fun _ _ => .ok trivial

theorem ensures_assignFrom (h : ∀ s ∈ body, s.Named p) :
    Ensures p.place (assignFrom afterFunction body labels) fun _ => True := by
  induction body generalizing afterFunction labels with
  | nil => exact .ok trivial
  | cons s rest ih =>
    rw [List.forall_mem_cons] at h
    unfold assignFrom
    split
    · rename_i hdeclaration
      refine .bind (ensures_assignEntry ?_) fun _ _ => ih h.2
      exact (h.1.entryDeclaration hdeclaration).1
    · cases h.1 with
      | functionDef _ hname _ hinside =>
        exact .bind (ensures_assignFunction hname.place) fun _ _ =>
          .bind (ensures_assignNested hinside) fun _ _ => ih h.2
    · exact ih h.2

end FunctionLabels

/-! ### The places of errors -/

/-- A pass of the compilation of a text fails, after those before it have succeeded. -/
inductive FailsIn (text : String) (options : Options) (jumps : LabelSupply) :
    Phase → CompileError → Prop where
  | parse {error : CompileError} (h : Script.ofSource (.ofString text) = .error error) :
      FailsIn text options jumps .parse error
  | lookahead {error : CompileError} {body : List Stmt}
      (hbody : Script.ofSource (.ofString text) = .ok body)
      (h : FunctionLabels.assign body = .error error) : FailsIn text options jumps .lookahead error
  | compile {error : CompileError} {body : List Stmt} {labels : FunctionLabels}
      (hbody : Script.ofSource (.ofString text) = .ok body)
      (hlabels : FunctionLabels.assign body = .ok labels)
      (h : Listing.ofScript labels body options.registerLimit jumps = .error error) :
      FailsIn text options jumps .compile error

/-- A position in a script: what holds of the places of all its nodes holds of it. -/
def Script.HasPlace (body : List Stmt) (position : Position) : Prop :=
  ∀ p : Vocabulary, (∀ s ∈ body, s.Named p) → p.place position

/-- The steps of scripts in a vocabulary. -/
def Emit.Permit.inWords (words : Vocabulary) : Emit.Permit where
  known _ := True
  stores _ := True
  known_of_stores _ h := h
  declares := True
  nests := True
  words

variable {body : List Stmt} {labels : FunctionLabels} {limit : Nat} {error : CompileError}
  {text : String} {options : Options} {jumps : LabelSupply} {phase : Phase} {report : Report}

theorem Listing.hasPlace_of_ofScript (h : Listing.ofScript labels body limit jumps = .error error) :
    Script.HasPlace body error.position := by
  intro p hnamed
  unfold Listing.ofScript at h
  split at h
  · cases h
  · rename_i hrun
    cases h
    have hpermitted : Emit.Permitted (.inWords p) (Emit.program labels body) :=
      Emit.permitted_program trivial hnamed (fun _ _ => trivial) trivial
    exact hpermitted.place_of_error (.ofLimit limit) hrun

theorem inPhase_eq_error {α : Type} {phase : Phase} {source : SourceText}
    {result : Except CompileError α} {report : Report}
    (h : inPhase phase source result = .error report) :
    ∃ error, result = .error error ∧ report = error.report phase source := by
  cases result with
  | error error => exact ⟨error, rfl, (Except.error.inj h).symm⟩
  | ok => cases h

theorem exists_failsIn (h : compile text options jumps = .error report) :
    ∃ phase error, FailsIn text options jumps phase error ∧
      report = error.report phase (.ofString text) := by
  rcases bind_eq_error.mp h with h | ⟨body, hbody, h⟩
  · obtain ⟨error, hparse, rfl⟩ := inPhase_eq_error h
    exact ⟨_, error, .parse hparse, rfl⟩
  have hbody := inPhase_eq_ok.mp hbody
  rcases bind_eq_error.mp h with h | ⟨labels, hlabels, h⟩
  · obtain ⟨error, hassign, rfl⟩ := inPhase_eq_error h
    exact ⟨_, error, .lookahead hbody hassign, rfl⟩
  have hlabels := inPhase_eq_ok.mp hlabels
  rcases bind_eq_error.mp h with h | ⟨listing, -, h⟩
  · obtain ⟨error, hcompile, rfl⟩ := inPhase_eq_error h
    exact ⟨_, error, .compile hbody hlabels hcompile, rfl⟩
  cases h

/-- An error of a pass after the first stands at a node of the script. -/
theorem FailsIn.hasPlace (h : FailsIn text options jumps phase error)
    (hbody : Script.ofSource (.ofString text) = .ok body) :
    Script.HasPlace body error.position := by
  cases h with
  | parse herror => cases hbody.symm.trans herror
  | lookahead hsource herror =>
    cases hbody.symm.trans hsource
    intro p hnamed
    have hensures : Script.Ensures p.place (FunctionLabels.assign body) fun _ => True :=
      FunctionLabels.ensures_assignFrom hnamed
    rw [herror] at hensures
    exact hensures
  | compile hsource _ herror =>
    cases hbody.symm.trans hsource
    exact Listing.hasPlace_of_ofScript herror

/-- Every error stands at the position of a byte offset. -/
theorem FailsIn.exists_offset (h : FailsIn text options jumps phase error) :
    ∃ offset, error.position = (SourceText.ofString text).position offset := by
  have hensures : Script.Ensures
      (fun position => ∃ offset, position = (SourceText.ofString text).position offset)
      (Script.ofSource (.ofString text)) _ := Script.ensures_ofSource fun offset => ⟨offset, rfl⟩
  cases hsource : Script.ofSource (.ofString text) with
  | ok body =>
    rw [hsource] at hensures
    exact h.hasPlace hsource _ hensures
  | error first =>
    rw [hsource] at hensures
    cases h with
    | parse herror =>
      cases hsource.symm.trans herror
      exact hensures
    | lookahead hbody => cases hsource.symm.trans hbody
    | compile hbody => cases hsource.symm.trans hbody

/-- A compilation that fails is reported with the pass that failed, its cause, and a line of the
source text: with the number of the line in which the error arose, counted by the line feeds in
front of it, and with the text of that line but for carriage returns at its end. Past the first
pass, the error stands at a node of the script. Lines have to be counted in 32 bits. -/
theorem compile_error_on_line (hlines : text.toList.count '\n' + 1 < UInt32.size)
    (h : compile text options jumps = .error report) :
    ∃ error offset line shown, FailsIn text options jumps report.phase error ∧
      error.position = (SourceText.ofString text).position offset ∧
      (∀ body, Script.ofSource (.ofString text) = .ok body →
        Script.HasPlace body error.position) ∧
      report.kind = error.fault.kind ∧ report.message = error.fault.message ∧
      report.location = some ⟨line, String.ofList shown⟩ ∧
      line = (SourceText.textBefore offset text.toList).count '\n' + 1 ∧
      1 ≤ line ∧ line ≤ text.toList.count '\n' + 1 ∧
      ∃ n, (text.toList.splitOn '\n')[line - 1]? = some (shown ++ List.replicate n '\r') ∧
        shown.getLast? ≠ some '\r' := by
  obtain ⟨phase, error, hfails, rfl⟩ := exists_failsIn h
  obtain ⟨offset, hoffset⟩ := hfails.exists_offset
  have hcount := (SourceText.textBefore_prefix offset text.toList).sublist.count_le '\n'
  have hline : error.position.line.toNat =
      (SourceText.textBefore offset text.toList).count '\n' + 1 := by
    rw [hoffset, SourceText.position_ofString]
    exact UInt32.toNat_ofNat_of_lt' (show _ < UInt32.size by omega)
  obtain ⟨segment, hsegment⟩ : ∃ segment, (text.toList.splitOn '\n')[
      (SourceText.textBefore offset text.toList).count '\n']? = some segment := by
    refine ⟨_, List.getElem?_eq_getElem ?_⟩
    rw [← lineSegments_eq_splitOn, length_lineSegments]
    omega
  obtain ⟨shown, n, hshown, rfl, hlast⟩ := SourceText.lineText_succ hsegment
  refine ⟨error, offset, _, shown, hfails, hoffset, fun _ => hfails.hasPlace, rfl, rfl, ?_, rfl,
    by omega, by omega, n, hsegment, hlast⟩
  show some (ReportLocation.mk _ _) = _
  rw [hline, hshown]

/-- A variable that was never assigned to is reported with a line of the text. -/
theorem compile_error_on_line_unbound : ∃ report line shown,
    compile "LBL(\"M\")\ny = z\r\n" {} = .error report ∧
    report.location = some ⟨line, String.ofList shown⟩ ∧ 1 ≤ line ∧ line ≤ 3 := by
  have hfails : (compile "LBL(\"M\")\ny = z\r\n" {}).toOption.isNone = true := by decide +kernel
  generalize hcompile : compile "LBL(\"M\")\ny = z\r\n" {} = result at hfails ⊢
  cases result with
  | ok => cases hfails
  | error report =>
    obtain ⟨_, _, line, shown, -, -, -, -, -, hlocation, -, hfirst, hlast, -⟩ :=
      compile_error_on_line (by decide) hcompile
    exact ⟨report, line, shown, rfl, hlocation, hfirst, hlast⟩

end Keystroke
