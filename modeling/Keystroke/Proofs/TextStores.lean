import Keystroke.Proofs.AlphaPieces
import Keystroke.Proofs.ListingText
import Keystroke.Proofs.LocalLabels
import Keystroke.Proofs.ScalarEmission

/-!
# Lines of text and stores of text

Whether an assignment stores X or the alpha register is decided by the last line that has been
written. This is right because a text literal is the only expression whose code ends with a line of
text. So an assignment stores text exactly if its value is a text literal, and nothing else does.
-/

namespace Keystroke

open Script (Expr Ident Stmt)

variable {instr : Instr} {labels : FunctionLabels} {e : Expr} {listing : Listing}

/-! ### Kinds of lines -/

/-- A line counts as text exactly if it is printed as text. -/
theorem Instr.IsLegible.kindOfText_eq (h : instr.IsLegible) :
    Line.kindOfText instr.text.toList = instr.kind := by
  have hdigit : ∀ {cs : List Char}, (∀ c ∈ cs.head?, c.isDigit = true ∨ c = '.') →
      Line.kindOfText cs = .plain := by
    intro cs hhead
    unfold Line.kindOfText
    split
    · exact absurd (hhead _ rfl) (by decide)
    · rw [if_neg]
      rintro rfl
      exact absurd (hhead _ rfl) (by decide)
    · rfl
  cases instr with
  | int value => exact hdigit fun c hc => Or.inl (isDigit_of_mem_decimal (List.mem_of_mem_head? hc))
  | decimal spelling => exact hdigit h
  | op o => cases o <;> decide
  | memory o => cases o <;> simp [text, MemoryOp.mnemonic, Line.kindOfText, kind]
  | flag o => cases o <;> simp [text, FlagOp.mnemonic, Line.kindOfText, kind]
  | setting o => cases o <;> simp [text, Setting.mnemonic, Line.kindOfText, kind]
  | verbatim => exact h.elim
  | _ => simp [text, appendMark, Line.kindOfText, kind]

/-! ### The last line of an expression -/

theorem endsWithText_eq {code : List Instr} (kind : LineKind) (hne : code ≠ [])
    (h : ∀ instr ∈ code, instr.kind = kind) (before : Bool) :
    endsWithText code before = (kind == .string) := by
  obtain ⟨init, last, rfl⟩ := (List.eq_nil_or_concat' code).resolve_left hne
  rw [endsWithText, List.foldl_append, ← h last (by simp)]
  rfl

namespace Emit

variable {α β : Type} {m : Emit α} {f : α → Emit β}

/-- After an action the last line is no text. -/
def EndsPlain (m : Emit α) : Prop :=
  ∀ s a s', m.run s = .ok (a, s') → s'.listing.lastIsString = false

namespace EndsPlain

theorem fail {fault : Fault} {start : Position} : EndsPlain (Emit.fail fault start : Emit α) := by
  intro s a s' hrun
  cases hrun

theorem bind (hf : ∀ a, EndsPlain (f a)) : EndsPlain (m >>= f) := by
  intro s b s' hrun
  obtain ⟨a, s₁, -, hrun⟩ := run_bind.mp hrun
  exact hf a s₁ b s' hrun

theorem line (instr : Instr) : EndsPlain (Emit.line instr) := by
  intro s a s' hrun
  cases hrun
  exact Listing.lastIsString_emit

theorem op (o : Op) : EndsPlain (Emit.op o) :=
  line _

theorem call (routine : Routine) : EndsPlain (Emit.call routine) := by
  intro s a s' hrun
  cases hrun
  exact Listing.lastIsString_emit

theorem recallName (id : Ident) : EndsPlain (Emit.recallName labels id) := by
  have hread : EndsPlain (do
      let register ← registerOf id.name id.start
      Emit.line (.recallValue register)
      if (← get).scopes.isRangeIndex id.name then
        Emit.op .integerPart) := by
    refine bind fun register s a s' hrun => ?_
    obtain ⟨_, s₁, hline, hrun⟩ := run_bind.mp hrun
    rw [run_get_bind] at hrun
    split at hrun
    · exact op _ _ _ _ hrun
    · cases hrun
      exact line _ s _ _ hline
  unfold Emit.recallName
  split
  · exact bind fun _ => hread
  · exact hread

theorem booleans (operator : Python.BoolOp) (e : Expr) (rest : List Expr) :
    EndsPlain (Emit.booleans labels operator (e :: rest)) := by
  induction rest generalizing e with
  | nil =>
    simp only [Emit.booleans, bind_pure_unit]
    exact bind fun _ => bind fun _ => op _
  | cons next rest ih =>
    rw [Emit.booleans]
    exact bind fun _ => bind fun _ => bind fun _ => ih next

theorem compareChain (isFirst : Bool) (previous : Emit Unit)
    (first : Python.CompareOp × Expr) (rest : List (Python.CompareOp × Expr)) :
    EndsPlain (Emit.compareChain labels isFirst previous (first :: rest)) := by
  induction rest generalizing isFirst previous first with
  | nil =>
    rw [Emit.compareChain, Emit.compareChain]
    split
    · exact fail
    · refine bind fun _ => bind fun _ => ?_
      cases isFirst with
      | true => exact call _
      | false => exact bind fun _ => bind fun _ => op _
  | cons next rest ih =>
    rw [Emit.compareChain]
    split
    · exact fail
    · refine bind fun _ => bind fun _ => bind fun _ => ?_
      split
      · exact ih _ _ next
      · exact bind fun _ => bind fun _ => ih _ _ next

end EndsPlain

/-- The code of an expression ends with a line of text exactly if the expression is a text
literal. -/
theorem lastIsString_expr (h : e.Named sourceWords) {s s' : Emitter}
    (hrun : (expr labels e).run s = .ok ((), s')) :
    s'.listing.lastIsString = true ↔ ∃ start text, e = .string start text := by
  by_cases htext : ∃ start text, e = .string start text
  · obtain ⟨start, text, rfl⟩ := htext
    rw [expr] at hrun
    cases hrun
    obtain ⟨first, rest, heq, -⟩ :=
      piecesFrom_eq (show 0 < alphaWidth by decide) alphaWidth text.toList
    refine iff_of_true ((Listing.lastIsString_emitAll kind_of_mem_alphaLines).trans
      (endsWithText_eq .string ?_ kind_of_mem_alphaLines _)) ⟨start, text, rfl⟩
    simp [alphaLines, alphaPieces, heq]
  · suffices hplain : EndsPlain (expr labels e) from
      iff_of_false (by simp [hplain s () s' hrun]) htext
    cases h with
    | string => exact absurd ⟨_, _, rfl⟩ htext
    | int | float | bool | none => exact .line _
    | name => exact .recallName _
    | @binary _ _ _ operator =>
      rw [expr]
      cases hops : operator.ops? with
      | none => exact .fail
      | some ops =>
        have hne : ops ≠ [] := by
          rintro rfl
          cases operator <;> cases hops
        have hkind : ∀ instr ∈ ops.map Instr.op, instr.kind = .plain :=
          List.forall_mem_map.mpr fun _ _ => rfl
        refine .bind fun _ => .bind fun _ s a s' hrun => ?_
        cases hrun
        exact (Listing.lastIsString_emitAll hkind).trans
          (endsWithText_eq .plain (List.map_eq_nil_iff.not.mpr hne) hkind _)
    | boolean _ _ _ hchain =>
      obtain ⟨next, rest, rfl⟩ := List.exists_cons_of_length_pos hchain
      exact .bind fun _ => .booleans _ _ _
    | not => exact .bind fun _ => .bind fun _ => .call _
    | negate | invert => exact .bind fun _ => .op _
    | compare _ _ _ hchain =>
      obtain ⟨next, rest, rfl⟩ := List.exists_cons_of_length_pos hchain
      exact .compareChain _ _ next rest
    | call | method | subscript =>
      have hdigits : ∀ (o : DigitsOp) n, EndsPlain (line (o.instr n)) := by
        intro o n
        cases o <;> exact .line _
      simp only [expr, callFunction, builtin, length, print, primitive, Emit.method, dimension,
        changeRow, loadSubscript, loadPart]
      -- each branch fails, or ends with a line that is no text
      repeat' first
        | split
        | with_reducible first | exact .fail | exact .op _ | exact .call _ | refine .bind fun _ =>
          ?_
        | exact hdigits _ _
        | exact .line _
    | slice | tuple | list | dict => exact .fail

end Emit

/-! ### Programs -/

/-- Lines of the library are of the kind that their texts have, which is that of their
instructions. -/
theorem Listing.kind_libraryLines (routines : List Routine) :
    ∀ line ∈ libraryLines routines, line.kind = line.instr.kind := by
  rw [libraryLines, List.forall_mem_append, List.forall_mem_map]
  refine ⟨by decide, fun instr hinstr => ?_⟩
  obtain ⟨routine, -, hinstr⟩ := List.mem_flatMap.mp hinstr
  exact (isLegible_of_mem_body hinstr).kindOfText_eq

theorem Listing.kind_final {library localLabels : Bool}
    (h : ∀ line ∈ listing.lines.toList, line.kind = line.instr.kind) :
    ∀ line ∈ (if library then listing.appendLibrary localLabels else listing).lines.toList,
      line.kind = line.instr.kind := by
  have hinstr : ∀ instr, (finalInstr localLabels instr).kind = instr.kind := by
    intro instr
    cases localLabels with
    | false => rfl
    | true => cases instr <;> rfl
  split
  · by_cases hneeded : listing.needed = []
    · rwa [appendLibrary_of_needed_eq_nil hneeded]
    · rw [lines_appendLibrary hneeded, List.forall_mem_map]
      intro line hline
      rw [hinstr]
      rcases List.mem_append.mp hline with hline | hline
      · exact h line hline
      · exact kind_libraryLines _ line hline
  · exact h

/-- A line of a program counts as text exactly if it is printed as text, and the last line of an
expression does exactly if the expression is a text literal. So an assignment stores text exactly if
its value is a text literal, and lines outside assignments store no text to a variable. -/
theorem text_stored_exactly {text : String} {options : Options} {jumps : LabelSupply}
    {final : Listing} (h : compile text options jumps = .ok final) :
    (∀ line ∈ final.lines.toList, line.kind = .string ↔ StartsAsText line.text) ∧
    ∃ body labels listing, Script.ofSource (.ofString text) = .ok body ∧
      FunctionLabels.assign body = .ok labels ∧
      Listing.ofScript labels body options.registerLimit jumps = .ok listing ∧
      final =
        (if options.library then listing.appendLibrary options.localLibraryLabels else listing) ∧
      (∀ position tree e s s', Script.checkExpr position tree = .ok e →
        (Emit.expr labels e).run s = .ok ((), s') →
        (s'.listing.lastIsString = true ↔ ∃ start text, e = .string start text)) ∧
      Listing.Grows labels sourceWords {} listing ∧
      ∀ target others value s s', (∀ e ∈ target :: others, e.Named sourceWords) →
        value.Named sourceWords → (Emit.assign labels target others value).run s = .ok ((), s') →
        ∃ code, s'.listing = s.listing.writeAll code ∧ ∀ line ∈ code, ∀ alpha ∈ line.store?,
          (alpha = true ↔ ∃ start text, value = .string start text) := by
  obtain ⟨body, labels, listing, hbody, hlabels, hlisting, rfl⟩ := compile_eq_ok.mp h
  have hassigned := FunctionLabels.assigned_of_assign hlabels
  refine ⟨fun line hline => ?_, body, labels, listing, hbody, hlabels, hlisting, rfl,
    fun position tree e s s' hcheck hrun => Emit.lastIsString_expr
      ((Script.named_checkExpr (fun _ => trivial) tree).of_ok hcheck) hrun,
    ?_, fun target others value s s' hnamed hvalue hrun => ?_⟩
  · have hlegible : ∀ instr ∈ (if options.library then
        listing.appendLibrary options.localLibraryLabels else listing).instrs, instr.IsLegible := by
      rw [Listing.instrs_final]
      refine List.forall_mem_map.mpr fun instr hinstr => ?_
      have hlegible := Listing.isLegible_ofScript hbody hlabels hlisting instr hinstr
      unfold Listing.finalInstr
      split
      · exact Listing.isLegible_localisedInstr hlegible
      · exact hlegible
    -- a line has the kind of its instruction, which its text shows
    rw [Listing.kind_final (fun line hline => ?_) line hline]
    · rw [← (hlegible _ (List.mem_map_of_mem hline)).kindOfText_eq]
      exact Line.kindOfText_eq_string_iff
    · obtain ⟨_, s, hrun, rfl⟩ := ofScript_eq_ok.mp hlisting
      obtain ⟨added, hadded, hkinds⟩ := (Emit.reaches_of_run hrun).steps.adds
      exact (hkinds line (by simpa [hadded] using hline)).1
  · obtain ⟨u, s, hrun, rfl⟩ := ofScript_eq_ok.mp hlisting
    exact ((Emit.writes_program hassigned.own hassigned.entryOwn body
      (Script.named_of_ofSource hbody)).code _ u s hrun).2.1
  · have hstraight : Emit.Straight labels
        ⟨sourceWords, fun alpha => alpha = true ↔ ∃ start text, value = .string start text⟩
        (Emit.assign labels target others value) :=
      Emit.straight_assign hassigned.own hnamed hvalue
        ⟨fun s s' hrun => Emit.lastIsString_expr hvalue hrun,
          fun hother => iff_of_false Bool.false_ne_true fun ⟨start, text, htext⟩ =>
            hother start text htext⟩
    obtain ⟨code, scopes, hcode, -, hwrites⟩ := hstraight.repeats s () s' hrun
    cases hrun.symm.trans (hwrites s rfl rfl)
    exact ⟨code, rfl, fun line hline => (hcode line hline).2⟩

/-- A name that is given a text, and another that is given its value. -/
def copiedText : String :=
  "def f():\n  x = 'a'\n  y = x\n"

/-- The text is stored as a text, and its copy is not. -/
theorem text_stored_exactly_copied : ∃ final, compile copiedText {} = .ok final ∧
    final.lines.toList.filterMap Line.store? = [true, false] ∧
    ∀ line ∈ final.lines.toList, line.kind = .string ↔ StartsAsText line.text := by
  have hrun : (compile copiedText {}).toOption.any (fun final =>
      final.lines.toList.filterMap Line.store? = [true, false]) = true := by
    decide +kernel
  obtain ⟨final, hfinal, hstores⟩ := exists_ok_of_any hrun
  exact ⟨final, hfinal, of_decide_eq_true hstores, (text_stored_exactly hfinal).1⟩

end Keystroke
