import Keystroke.Proofs.LineTexts
import Keystroke.Proofs.LinkClosure

/-!
# Local library labels

The labels of the library can be written as quoted names or as numbers. Both forms of a program have
the same lines up to the labels of the library, and every call finds the same labels in both.
-/

namespace Keystroke

open Instr

/-- A name that belongs to the library: that of its header, or that of a support routine. -/
def IsLibraryName (name : String) : Prop :=
  name = Listing.libraryHeader ∨ ∃ routine : Routine, name = routine.name

/-- The text of a line that calls or places a label of the library. -/
def IsLibraryReference (line : String) : Prop :=
  ∃ name, IsLibraryName name ∧ (line = "XEQ \"" ++ name ++ "\"" ∨ line = "LBL \"" ++ name ++ "\"")

namespace Listing

/-! ### Labels -/

theorem localised_eq_self_iff {name : String} :
    localised (.global name) = .global name ↔ ¬ IsLibraryName name := by
  by_cases hheader : name = libraryHeader
  · simp [localised, IsLibraryName, hheader]
  · cases hroutine : Routine.ofName? name with
    | some routine =>
      have hname := Routine.name_of_ofName? hroutine
      simp only [localised, if_neg hheader, hroutine, reduceCtorEq, false_iff, not_not]
      exact Or.inr ⟨routine, hname.symm⟩
    | none =>
      simp only [localised, if_neg hheader, hroutine, true_iff]
      rintro (hname | ⟨routine, rfl⟩)
      · exact hheader hname
      · rw [Routine.ofName?_name] at hroutine
        cases hroutine

theorem localised_localised (label : Label) : localised (localised label) = localised label := by
  cases label with
  | global name =>
    rcases localised_global name with heq | ⟨routine, -, heq⟩ | heq
    · rw [heq]
      rfl
    · rw [heq]
      rfl
    · rw [heq, heq]
  | letter c => rfl
  | number n => rfl

theorem localisedInstr_localisedInstr (instr : Instr) :
    localisedInstr (localisedInstr instr) = localisedInstr instr := by
  cases instr with
  | lbl label => exact congrArg lbl (localised_localised label)
  | xeq label => exact congrArg xeq (localised_localised label)
  | _ => rfl

/-- Once library labels are local, nothing is left to change. -/
theorem localiseLabels_localiseLabels (listing : Listing) :
    listing.localiseLabels.localiseLabels = listing.localiseLabels := by
  simp [localiseLabels, Function.comp_def, localisedInstr_localisedInstr]

/-! ### Texts -/

def localisedText (line : String) : String :=
  (localisedInstr (.ofText line)).text

variable {instr : Instr}

theorem isLegible_localisedInstr (h : instr.IsLegible) :
    (localisedInstr instr).IsLegible := by
  cases instr with
  | lbl label => trivial
  | xeq label => trivial
  | _ => exact h

/-- For a legible line it is the same whether the line or its text is changed. -/
theorem localisedText_text (h : instr.IsLegible) :
    localisedText instr.text = (localisedInstr instr).text := by
  unfold localisedText
  rcases ofText_cases instr.text with ⟨name, htext, hread⟩ | ⟨name, htext, hread⟩ |
    ⟨hxeq, hlbl, hread⟩
  · obtain ⟨label, rfl, hlabel⟩ := (text_eq_xeq_iff h).mp htext
    rw [hread, Label.text_injective hlabel]
  · obtain ⟨label, rfl, hlabel⟩ := (text_eq_lbl_iff h).mp htext
    rw [hread, Label.text_injective hlabel]
  · -- no call and no label with a quoted name, so neither form changes
    rw [hread]
    cases instr with
    | lbl label =>
      cases label with
      | global name => exact (hlbl name rfl).elim
      | _ => rfl
    | xeq label =>
      cases label with
      | global name => exact (hxeq name rfl).elim
      | _ => rfl
    | _ => rfl

/-- A text that is changed once is not changed again. -/
theorem localisedText_localisedText (line : String) :
    localisedText (localisedText line) = localisedText line := by
  have hlegible : ∀ instr : Instr, instr.IsLegible →
      localisedText (localisedInstr instr).text = (localisedInstr instr).text := by
    intro instr h
    rw [localisedText_text (isLegible_localisedInstr h), localisedInstr_localisedInstr]
  rcases ofText_cases line with ⟨name, -, hread⟩ | ⟨name, -, hread⟩ | ⟨-, -, hread⟩
  · rw [show localisedText line = (localisedInstr (.xeq (.global name))).text by
      rw [localisedText, hread]]
    exact hlegible _ trivial
  · rw [show localisedText line = (localisedInstr (.lbl (.global name))).text by
      rw [localisedText, hread]]
    exact hlegible _ trivial
  · have hsame : localisedText line = line := by
      rw [localisedText, hread]
      rfl
    rw [hsame, hsame]

variable {line operand : String} {label : Label}

theorem isLibraryReference_iff : IsLibraryReference line ↔
    ∃ name, IsLibraryName name ∧
      (line = (xeq (.global name)).text ∨ line = (lbl (.global name)).text) := by
  have hxeq : ∀ name, "XEQ \"" ++ name ++ "\"" = (xeq (.global name)).text := by
    intro name
    rw [← String.toList_inj]
    simp [text, Label.text]
  have hlbl : ∀ name, "LBL \"" ++ name ++ "\"" = (lbl (.global name)).text := by
    intro name
    rw [← String.toList_inj]
    simp [text, Label.text]
  simp only [IsLibraryReference, hxeq, hlbl]

/-- The texts that change are those of the calls and the labels of the library. -/
theorem localisedText_ne_iff :
    localisedText line ≠ line ↔ IsLibraryReference line := by
  rw [isLibraryReference_iff]
  rcases ofText_cases line with ⟨name, rfl, hread⟩ | ⟨name, rfl, hread⟩ | ⟨hxeq, hlbl, hread⟩
  · rw [localisedText, hread, localisedInstr, ne_eq, text_xeq_inj, localised_eq_self_iff,
      not_not]
    constructor
    · exact fun h => ⟨name, h, Or.inl rfl⟩
    · rintro ⟨other, hother, htext | htext⟩
      · cases text_xeq_inj.mp htext
        exact hother
      · exact (text_xeq_ne_text_lbl _ _ htext).elim
  · rw [localisedText, hread, localisedInstr, ne_eq, text_lbl_inj, localised_eq_self_iff,
      not_not]
    constructor
    · exact fun h => ⟨name, h, Or.inr rfl⟩
    · rintro ⟨other, hother, htext | htext⟩
      · exact (text_xeq_ne_text_lbl _ _ htext.symm).elim
      · cases text_lbl_inj.mp htext
        exact hother
  · rw [localisedText, hread]
    constructor
    · exact fun h => (h rfl).elim
    · rintro ⟨other, -, htext | htext⟩
      · exact (hxeq other htext).elim
      · exact (hlbl other htext).elim

/-- No label and no call of a function or an entry belongs to the library. -/
theorem not_isLibraryReference (hown : label.IsOwn)
    (hline : line = "LBL " ++ label.text ∨ line = "XEQ " ++ label.text) :
    ¬ IsLibraryReference line := by
  rw [← localisedText_ne_iff, not_not]
  rcases hline with rfl | rfl
  · have hlegible : (lbl label).IsLegible := trivial
    refine (localisedText_text hlegible).trans ?_
    rw [localisedInstr, localised_of_isOwn hown]
    rfl
  · have hlegible : (xeq label).IsLegible := trivial
    refine (localisedText_text hlegible).trans ?_
    rw [localisedInstr, localised_of_isOwn hown]
    rfl

theorem exists_text_localisedInstr_eq_xeq_iff (h : instr.IsLegible) :
    (∃ operand, (localisedInstr instr).text = "XEQ " ++ operand) ↔
      ∃ operand, instr.text = "XEQ " ++ operand := by
  constructor
  · rintro ⟨operand, htext⟩
    obtain ⟨label, hlabel, -⟩ := (text_eq_xeq_iff (isLegible_localisedInstr h)).mp htext
    obtain ⟨other, rfl, -⟩ := finalInstr_eq_xeq.mp (show finalInstr true instr = _ from hlabel)
    exact ⟨_, rfl⟩
  · rintro ⟨operand, htext⟩
    obtain ⟨label, rfl, -⟩ := (text_eq_xeq_iff h).mp htext
    exact ⟨_, rfl⟩

/-! ### Programs -/

def TextAt (listing : Listing) (place : Nat) (text : String) : Prop :=
  listing.lines[place]?.map Line.text = some text

instance (listing : Listing) (place : Nat) (text : String) :
    Decidable (listing.TextAt place text) :=
  inferInstanceAs (Decidable (_ = _))

variable {labels : FunctionLabels} {listing : Listing}

variable {place : Nat}

theorem textAt_iff {text : String} :
    listing.TextAt place text ↔
      ∃ instr, InstrAt listing.instrs place instr ∧ instr.text = text := by
  unfold TextAt InstrAt instrs
  rw [List.getElem?_map, Array.getElem?_toList]
  cases listing.lines[place]? with
  | none => simp
  | some line => simp [Line.text]

theorem textAt_xeq_iff (hlegible : ∀ instr ∈ listing.instrs, instr.IsLegible) :
    listing.TextAt place ("XEQ " ++ operand) ↔
      ∃ label, InstrAt listing.instrs place (.xeq label) ∧ label.text = operand := by
  rw [textAt_iff]
  constructor
  · rintro ⟨instr, hinstr, htext⟩
    obtain ⟨label, rfl, hlabel⟩ :=
      (text_eq_xeq_iff (hlegible instr (exists_instrAt.mp ⟨place, hinstr⟩))).mp htext
    exact ⟨label, hinstr, hlabel⟩
  · rintro ⟨label, hinstr, rfl⟩
    exact ⟨_, hinstr, rfl⟩

theorem textAt_lbl_iff (hlegible : ∀ instr ∈ listing.instrs, instr.IsLegible) :
    listing.TextAt place ("LBL " ++ label.text) ↔
      InstrAt listing.instrs place (.lbl label) := by
  rw [textAt_iff]
  constructor
  · rintro ⟨instr, hinstr, htext⟩
    obtain ⟨found, rfl, hfound⟩ :=
      (text_eq_lbl_iff (hlegible instr (exists_instrAt.mp ⟨place, hinstr⟩))).mp htext
    rwa [← Label.text_injective hfound]
  · exact fun hinstr => ⟨_, hinstr, rfl⟩

theorem instrs_localiseLabels :
    listing.localiseLabels.instrs = listing.instrs.map localisedInstr := by
  simp [instrs, localiseLabels]

/-- The library is made of lines that are known by their texts. -/
theorem isLegible_of_mem_body {routine : Routine} (h : instr ∈ routine.body) : instr.IsLegible := by
  have hbodies : ∀ routine : Routine, ∀ instr ∈ routine.body, instr.isFixed = true := by
    decide
  exact isLegible_of_isFixed (hbodies routine instr h)

theorem isLegible_ofScript {source : SourceText} {body : List Script.Stmt} {limit : Nat}
    {jumps : LabelSupply} {library : Bool} (hbody : Script.ofSource source = .ok body)
    (hlabels : FunctionLabels.assign body = .ok labels)
    (h : ofScript labels body limit jumps = .ok listing) :
    ∀ instr ∈ listing.instrs ++ suffix library listing.needed, instr.IsLegible := by
  have hassigned := FunctionLabels.assigned_of_assign hlabels
  refine List.forall_mem_append.mpr ⟨fun instr hinstr => ?_,
    forall_mem_suffix IsLegible (by simp [headerCode, IsLegible]) fun _ _ => isLegible_of_mem_body⟩
  have hline := (code_ofScript hassigned.own hassigned.entryOwn h).1 instr hinstr
  have hnumber := isSpelled_ofScript hassigned.own hassigned.entryOwn
    (Script.named_of_ofSource hbody) h instr hinstr
  cases instr with
  | verbatim text => exact hline
  | decimal spelling => exact hnumber.startsAsNumber
  | _ => trivial

/-- The two forms of a program differ in its library labels only. -/
theorem IsLinked.appendLibrary_true (h : listing.IsLinked labels) :
    listing.appendLibrary true = (listing.appendLibrary false).localiseLabels := by
  by_cases hneeded : listing.needed = []
  · rw [appendLibrary_of_needed_eq_nil hneeded, appendLibrary_of_needed_eq_nil hneeded]
    have hlines : listing.lines.map (fun line =>
        { line with instr := localisedInstr line.instr }) = listing.lines := by
      refine Array.ext' ?_
      rw [Array.toList_map]
      refine (List.map_congr_left fun line hline => ?_).trans (List.map_id _)
      have hsame : finalInstr true line.instr = line.instr :=
        h.finalInstr_eq hneeded (List.mem_map_of_mem hline)
      rw [show localisedInstr line.instr = line.instr from hsame]
      rfl
    rw [localiseLabels, hlines]
  · simp [appendLibrary, hneeded]

/-- A call finds the same labels in both forms of a program. -/
theorem IsLinked.textAt_label_iff {plain : Listing} (h : listing.IsLinked labels)
    (hplain : plain.instrs = listing.linkedCode)
    (hlegible : ∀ instr ∈ plain.instrs, instr.IsLegible) {operand' : String}
    (hcall : plain.TextAt place ("XEQ " ++ operand))
    (hcall' : plain.localiseLabels.TextAt place ("XEQ " ++ operand')) (target : Nat) :
    plain.TextAt target ("LBL " ++ operand) ↔
      plain.localiseLabels.TextAt target ("LBL " ++ operand') := by
  have hlegible' : ∀ instr ∈ plain.localiseLabels.instrs, instr.IsLegible := by
    intro instr hinstr
    rw [instrs_localiseLabels] at hinstr
    obtain ⟨source, hsource, rfl⟩ := List.mem_map.mp hinstr
    exact isLegible_localisedInstr (hlegible source hsource)
  obtain ⟨label, hlabel, rfl⟩ := (textAt_xeq_iff hlegible).mp hcall
  obtain ⟨label', hlabel', rfl⟩ := (textAt_xeq_iff hlegible').mp hcall'
  rw [textAt_lbl_iff hlegible, textAt_lbl_iff hlegible', instrs_localiseLabels, instrAt_map]
  rw [instrs_localiseLabels, instrAt_map] at hlabel'
  obtain ⟨call, hcallAt, hcallEq⟩ := hlabel'
  cases hlabel.symm.trans hcallAt
  cases hcallEq
  have hcallable : label.IsCallable := by
    refine (h.count_callee ?_).1
    rw [← hplain]
    exact exists_instrAt.mp ⟨place, hlabel⟩
  constructor
  · exact fun htarget => ⟨_, htarget, rfl⟩
  · rintro ⟨instr, htarget, hinstr⟩
    obtain ⟨other, rfl, hother⟩ := finalInstr_eq_lbl.mp (show finalInstr true instr = _ from hinstr)
    have hnumber : ∀ n, other = .number n → n < 50 ∨ 90 ≤ n := by
      rintro n rfl
      refine h.number_of_mem ?_
      rw [← hplain]
      exact exists_instrAt.mp ⟨target, htarget⟩
    rwa [← eq_of_localised_eq hcallable hnumber hother]

end Listing

/-- Both forms of a program have the same lines up to the labels of the library, which no function
and no entry has. Every call finds the same labels in both, and a program in local form has nothing
left to change. -/
theorem library_labels_localised {text : String} {options : Options} {final : Listing}
    (h : compile text options = .ok final) :
    ∃ labels plain rewritten, labelsOf text = .ok labels ∧
      compile text { options with localLibraryLabels := false } = .ok plain ∧
      compile text { options with localLibraryLabels := true } = .ok rewritten ∧
      rewritten = (if options.library then plain.localiseLabels else plain) ∧
      rewritten.lines.size = plain.lines.size ∧
      (∀ (place : Nat) (line line' : Line), plain.lines[place]? = some line →
        rewritten.lines[place]? = some line' →
        line'.comment = line.comment ∧ line'.kind = line.kind ∧
        (line'.text ≠ line.text ↔ options.library = true ∧ IsLibraryReference line.text) ∧
        (∀ label, (label ∈ labels.entry ∨ ∃ name, labels.get? name = some label) →
          line.text = "LBL " ++ label.text ∨ line.text = "XEQ " ++ label.text →
          line'.text = line.text) ∧
        ((∃ operand, line'.text = "XEQ " ++ operand) ↔ ∃ operand, line.text = "XEQ " ++ operand)) ∧
      (∀ place operand operand', plain.TextAt place ("XEQ " ++ operand) →
        rewritten.TextAt place ("XEQ " ++ operand') →
        ∀ target, plain.TextAt target ("LBL " ++ operand) ↔
          rewritten.TextAt target ("LBL " ++ operand')) ∧
      (∀ listing : Listing, listing.localiseLabels.localiseLabels = listing.localiseLabels) ∧
      ∀ line, Listing.localisedText (Listing.localisedText line) = Listing.localisedText line := by
  obtain ⟨body, labels, user, hbody, hlabels, huser, -⟩ := compile_eq_ok.mp h
  have hassigned := FunctionLabels.assigned_of_assign hlabels
  have hlinked := Listing.isLinked_ofScript hlabels huser
  have hlegible : ∀ instr ∈ user.linkedCode, instr.IsLegible :=
    Listing.isLegible_ofScript hbody hlabels huser
  have hof : labelsOf text = .ok labels :=
    bind_eq_ok.mpr ⟨body, inPhase_eq_ok.mpr hbody, inPhase_eq_ok.mpr hlabels⟩
  have hforms : ∀ localLabels, compile text { options with localLibraryLabels := localLabels } =
      .ok (if options.library then user.appendLibrary localLabels else user) := fun localLabels =>
    compile_eq_ok.mpr ⟨body, labels, user, hbody, hlabels, huser, rfl⟩
  cases hlibrary : options.library with
  | false =>
    -- without the library nothing is changed
    simp only [hlibrary, Bool.false_eq_true, if_false] at hforms
    refine ⟨labels, user, user, hof, hforms false, hforms true, rfl, rfl, ?_, ?_,
      Listing.localiseLabels_localiseLabels, Listing.localisedText_localisedText⟩
    · intro place line line' hline hline'
      cases hline.symm.trans hline'
      simp
    · intro place operand operand' hcall hcall' target
      have hsame : "XEQ " ++ operand = "XEQ " ++ operand' :=
        Option.some.inj (hcall.symm.trans hcall')
      rw [(String.append_right_inj _).mp hsame]
  | true =>
    simp only [hlibrary, if_true] at hforms
    have hplain : (user.appendLibrary false).instrs = user.linkedCode := by
      rw [hlinked.instrs_appendLibrary]
      exact List.map_id _
    have hplainLegible : ∀ instr ∈ (user.appendLibrary false).instrs, instr.IsLegible :=
      hplain ▸ hlegible
    refine ⟨labels, user.appendLibrary false, (user.appendLibrary false).localiseLabels, hof,
      hforms false, (hforms true).trans (congrArg _ hlinked.appendLibrary_true), rfl, ?_, ?_, ?_,
      Listing.localiseLabels_localiseLabels, Listing.localisedText_localisedText⟩
    · simp [Listing.localiseLabels]
    · intro place line line' hline hline'
      rw [Listing.localiseLabels, Array.getElem?_map, hline] at hline'
      cases hline'
      have hmem : line ∈ (user.appendLibrary false).lines := Array.mem_of_getElem? hline
      have hread : line.instr.IsLegible :=
        hplainLegible _ (List.mem_map_of_mem (Array.mem_toList_iff.mpr hmem))
      have hchanged : Listing.localisedText line.instr.text ≠ line.instr.text ↔ _ :=
        Listing.localisedText_ne_iff
      rw [Listing.localisedText_text hread] at hchanged
      refine ⟨rfl, rfl, hchanged.trans ⟨fun h => ⟨rfl, h⟩, And.right⟩, fun label hlabel htext => ?_,
        Listing.exists_text_localisedInstr_eq_xeq_iff hread⟩
      have hown : label.IsOwn := by
        rcases hlabel with hentry | ⟨name, hname⟩
        · exact hassigned.entryOwn label hentry
        · exact hassigned.own name label hname
      exact not_not.mp (hchanged.not.mpr (Listing.not_isLibraryReference hown htext))
    · intro place operand operand' hcall hcall' target
      exact hlinked.textAt_label_iff hplain hplainLegible hcall hcall' target

/-- A function that compares, calls another one, and has a text that spells the call of a
routine. -/
def spelledCallText : String :=
  "def f(a):\n  s = 'XEQ \"pEQ\"'\n  if a == 1:\n    return g(a)\ndef g(a):\n  return a + 1\n"

/-- The comparison is called by name or by number, and either way its one label is found; the text
that spells the call stays as it is. -/
theorem library_labels_localised_spelledCall :
    ∃ plain rewritten, compile spelledCallText { localLibraryLabels := false } = .ok plain ∧
      compile spelledCallText {} = .ok rewritten ∧
      plain.TextAt 3 "\"XEQ \"pEQ\"\"" ∧ rewritten.TextAt 3 "\"XEQ \"pEQ\"\"" ∧
      plain.TextAt 7 "XEQ \"pEQ\"" ∧ rewritten.TextAt 7 "XEQ 53" ∧
      plain.TextAt 13 "XEQ A" ∧ rewritten.TextAt 13 "XEQ A" ∧
      ∀ target, plain.TextAt target "LBL \"pEQ\"" ↔ rewritten.TextAt target "LBL 53" := by
  have hlocal : (compile spelledCallText {}).toOption.any (fun final =>
      final.TextAt 3 "\"XEQ \"pEQ\"\"" ∧ final.TextAt 7 "XEQ 53" ∧
        final.TextAt 13 "XEQ A") = true := by
    decide +kernel
  have hnamed : (compile spelledCallText { localLibraryLabels := false }).toOption.any (fun final =>
      final.TextAt 3 "\"XEQ \"pEQ\"\"" ∧ final.TextAt 7 "XEQ \"pEQ\"" ∧
        final.TextAt 13 "XEQ A") = true := by
    decide +kernel
  obtain ⟨final, hfinal, hlocal⟩ := exists_ok_of_any hlocal
  obtain ⟨final', hfinal', hnamed⟩ := exists_ok_of_any hnamed
  obtain ⟨_, plain, rewritten, -, hplain, hrewritten, -, -, -, hgraph, -⟩ :=
    library_labels_localised hfinal
  cases hfinal.symm.trans hrewritten
  cases hfinal'.symm.trans hplain
  obtain ⟨htext, hcall, hletter⟩ := of_decide_eq_true hlocal
  obtain ⟨htext', hcall', hletter'⟩ := of_decide_eq_true hnamed
  exact ⟨final', final, hfinal', hfinal, htext', htext, hcall', hcall, hletter', hletter,
    hgraph 7 "\"pEQ\"" "53" hcall' hcall⟩

end Keystroke
