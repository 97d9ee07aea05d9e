import Keystroke.Proofs.AlphaPieces
import Keystroke.Proofs.ListingText
import Keystroke.Proofs.WrittenLines

/-!
# One printed line for each instruction

A text literal may hold a line feed, as an escape or between triple quotes, and nothing takes it out
of the instructions that the literal becomes. Such an instruction is printed on two lines. All else
in a program is made of words, numbers and mnemonics, which hold no line feed.
-/

namespace Keystroke

open Script (Stmt)

/-- A text without line feeds. -/
def OneLine (text : String) : Prop :=
  '\n' ∉ text.toList

instance (text : String) : Decidable (OneLine text) :=
  inferInstanceAs (Decidable (¬ _))

variable {text other : String} {instr : Instr} {label : Label} {labels : FunctionLabels}
  {body : List Stmt} {p : Vocabulary}

theorem oneLine_append : OneLine (text ++ other) ↔ OneLine text ∧ OneLine other := by
  simp [OneLine]

theorem OneLine.append (h : OneLine text) (hother : OneLine other) : OneLine (text ++ other) :=
  oneLine_append.mpr ⟨h, hother⟩

theorem OneLine.quoted (h : OneLine text) : OneLine ("\"" ++ text ++ "\"") := by
  simpa [OneLine] using h

theorem oneLine_of_forall {p : Char → Bool} (h : ∀ c ∈ text.toList, p c = true)
    (hnewline : p '\n' = false) : OneLine text := by
  intro hmem
  rw [h _ hmem] at hnewline
  cases hnewline

theorem oneLine_twoDigits (n : Nat) : OneLine (twoDigits n) :=
  oneLine_of_forall (fun _ => isDigit_of_mem_twoDigits) (by decide)

theorem IsWord.oneLine (h : IsWord text) : OneLine text :=
  oneLine_of_forall h.2 (by decide +kernel)

theorem OneLine.variableName (h : OneLine text) : OneLine (variableName text) := by
  intro hmem
  rw [Keystroke.variableName, String.toList_ofList] at hmem
  exact h (List.mem_of_mem_drop hmem)

theorem OneLine.labelName (h : OneLine text) : OneLine (labelName text) := by
  intro hmem
  rw [Keystroke.labelName, String.toList_ofList] at hmem
  have huppercase := List.mem_of_mem_take hmem
  rw [uppercase, String.toList_ofList, List.mem_flatMap] at huppercase
  obtain ⟨c, hc, hnewline⟩ := huppercase
  obtain ⟨rfl, -⟩ := eq_of_mem_uppercaseChar (by decide) (by decide +kernel)
    (by decide +kernel) hnewline
  exact h hc

theorem OneLine.piece {piece : String} (h : OneLine text) (hpiece : piece ∈ alphaPieces text) :
    OneLine piece := by
  intro hmem
  obtain ⟨cs, hcs, rfl⟩ := List.mem_map.mp hpiece
  rw [String.toList_ofList] at hmem
  have hflat := List.mem_flatten.mpr ⟨cs, hcs, hmem⟩
  rw [flatten_piecesFrom] at hflat
  exact h hflat

/-! ### Labels -/

namespace Script

theorem definedNames_of_named (h : ∀ s ∈ body, s.Named p) : ∀ name ∈ definedNames body, p name := by
  induction body using functions_induction with
  | nil => simp [definedNames]
  | other s rest hnot ih =>
    rw [List.forall_mem_cons] at h
    simpa [definedNames, Stmt.definedNames] using ih h.2
  | functionDef start header body rest hbody hrest =>
    rw [List.forall_mem_cons] at h
    obtain ⟨hfirst, hnamed⟩ := h
    cases hfirst with
    | functionDef _ hname _ hinner =>
      rw [definedNames, Stmt.definedNames, List.forall_mem_append, List.forall_mem_cons]
      exact ⟨⟨hname.name, hbody hinner⟩, hrest hnamed⟩

theorem entryText?_of_named (h : ∀ s ∈ body, s.Named p) (htext : entryText? body = some text) :
    p.text text := by
  obtain ⟨declaration, hmem, honly⟩ := List.exists_of_findSome?_eq_some htext
  obtain ⟨s, hs, hdeclared⟩ := List.mem_filterMap.mp hmem
  unfold onlyText? at honly
  split at honly
  · rename_i hargs
    cases honly
    have hstring := ((h s hs).entryDeclaration hdeclared).2 _ (hargs ▸ List.mem_singleton_self _)
    cases hstring with
    | string _ htext => exact htext
  · cases honly

end Script

theorem FunctionLabels.oneLine_of_assign (hwords : ∀ s ∈ body, s.Named sourceWords)
    (htexts : ∀ text ∈ Script.entryText? body, OneLine text) (h : assign body = .ok labels) :
    (∀ label ∈ labels.entry, OneLine label.text) ∧
      ∀ name label, labels.get? name = some label → OneLine label.text := by
  obtain ⟨hdescribes, -⟩ := describes_of_assign h
  have hglobal : ∀ {name}, OneLine name → OneLine (Label.global (labelName name)).text := by
    intro name hname
    exact hname.labelName.quoted
  refine ⟨fun label hlabel => ?_, fun name label hlabel => ?_⟩
  · rw [hdescribes.entry_eq] at hlabel
    obtain ⟨name, hname, rfl⟩ := Option.map_eq_some_iff.mp hlabel
    exact hglobal (htexts name hname)
  · rcases hdescribes.label_cases hlabel with ⟨rfl, -⟩ | ⟨i, c, -, hc, rfl⟩
    · have hname := (assigned_of_assign h).mem_of_get? hlabel
      exact hglobal (Script.definedNames_of_named hwords name hname).oneLine
    · have hbank : '\n' ∉ letterBank := by decide
      have hne : '\n' ≠ c := fun heq => hbank (heq ▸ List.mem_of_getElem? hc)
      simpa [Label.text, OneLine] using hne

/-! ### Instructions -/

theorem oneLine_finalInstr (h : OneLine instr.text) (localLabels : Bool) :
    OneLine (Listing.finalInstr localLabels instr).text := by
  have hlocalised : ∀ {label : Label}, OneLine label.text →
      OneLine (Listing.localised label).text := by
    intro label hlabel
    unfold Listing.localised
    split
    · split
      · exact oneLine_twoDigits _
      · split
        · exact oneLine_twoDigits _
        · exact hlabel
    · exact hlabel
    · exact hlabel
  cases localLabels with
  | false => exact h
  | true =>
    cases instr with
    | lbl label | xeq label =>
      rw [Instr.text, oneLine_append] at h
      exact h.1.append (hlocalised h.2)
    | _ => exact h

/-- The steps of scripts whose names are words and whose texts hold no line feed. -/
def Emit.Permit.oneLine : Emit.Permit where
  known := IsWord
  stores := IsWord
  known_of_stores _ h := h
  declares := True
  nests := True
  words := { Vocabulary.any with text := OneLine }

open Emit (Permit) in
theorem oneLine_of_writes {comment : Option String} (h : Permit.oneLine.Writes comment instr)
    (hlinked : instr.IsLinked labels) (hspelled : instr.IsSpelled sourceWords)
    (hown : ∀ label ∈ instr.ownLabel?, OneLine label.text)
    (hcalled : ∀ name label, labels.get? name = some label → OneLine label.text) :
    OneLine instr.text := by
  have hlevel : ∀ level : StackLevel, OneLine level.text := by
    intro level
    cases level <;> decide
  cases instr with
  | int value => exact oneLine_of_forall (fun _ => isDigit_of_mem_decimal) (by decide)
  | decimal => exact oneLine_of_forall hspelled.forall_mem (by decide)
  | alpha piece =>
    obtain ⟨text, htext, hpiece⟩ := h
    exact (htext.piece hpiece).quoted
  | alphaAppend piece =>
    obtain ⟨text, htext, hpiece⟩ := h
    exact (OneLine.append (by decide) (htext.piece hpiece)).append (by decide)
  | op o => cases o <;> decide
  | memory o operand =>
    have hmnemonic : OneLine o.mnemonic := by cases o <;> decide
    have hoperand : OneLine operand.text := by
      cases operand with
      | register register =>
        cases register with
        | numbered n => exact oneLine_twoDigits n
        | named name =>
          have hname : OneLine name := by
            rcases h.1 with ⟨word, hword, hname⟩ | hname
            · cases hname
              exact (IsWord.oneLine hword).variableName
            · exact hname
          exact hname.quoted
      | stack level => exact OneLine.append (by decide) (hlevel level)
      | indirect => exact h.elim
    exact (hmnemonic.append (by decide)).append hoperand
  | flag o operand =>
    have hmnemonic : OneLine o.mnemonic := by cases o <;> decide
    have hoperand : OneLine operand.text := by
      cases operand with
      | number n => exact oneLine_twoDigits n
      | indirect level => exact OneLine.append (by decide) (hlevel level)
    exact (hmnemonic.append (by decide)).append hoperand
  | setting o n =>
    have hmnemonic : OneLine o.mnemonic := by cases o <;> decide
    exact (hmnemonic.append (by decide)).append (oneLine_twoDigits n)
  | lbl label =>
    have hlabel : OneLine label.text := by
      cases label with
      | number n => exact oneLine_twoDigits n
      | global | letter => exact hown _ rfl
    exact OneLine.append (by decide) hlabel
  | gto n => exact OneLine.append (by decide) (oneLine_twoDigits n)
  | xeq label =>
    have hlabel : OneLine label.text := by
      rcases hlinked with ⟨routine, rfl⟩ | ⟨name, hname⟩
      · cases routine <;> decide
      · exact hcalled name label hname
    exact OneLine.append (by decide) hlabel
  | verbatim => exact hlinked.elim

/-! ### Programs -/

/-- The code of a script whose texts hold no line feed has none. -/
theorem Listing.oneLine_ofScript {source : SourceText} {limit : Nat} {jumps : LabelSupply}
    {listing : Listing} (hbody : Script.ofSource source = .ok body)
    (htexts : ∀ s ∈ body, s.Named { Vocabulary.any with text := OneLine })
    (hlabels : FunctionLabels.assign body = .ok labels)
    (h : Listing.ofScript labels body limit jumps = .ok listing) :
    ∀ instr ∈ listing.instrs, OneLine instr.text := by
  have hwords := Script.named_of_ofSource hbody
  have hassigned := FunctionLabels.assigned_of_assign hlabels
  obtain ⟨hlinked, hown, -⟩ := code_ofScript hassigned.own hassigned.entryOwn h
  obtain ⟨hentry, hnames⟩ := FunctionLabels.oneLine_of_assign hwords
    (fun _ => Script.entryText?_of_named htexts) hlabels
  obtain ⟨u, s, hrun, rfl⟩ := ofScript_eq_ok.mp h
  have hpermitted : Emit.Permitted .oneLine (Emit.program labels body) :=
    Emit.permitted_program trivial htexts (Script.storedNames_of_named hwords) trivial
  obtain ⟨added, hlines, hadded⟩ := (hpermitted.steps (.ofLimit limit) hrun).adds
  intro instr hinstr
  obtain ⟨line, hline, rfl⟩ := List.mem_map.mp hinstr
  rw [hlines] at hline
  obtain ⟨-, hwrites | ⟨register, ⟨name, hname, rfl⟩, hselects⟩ | hselects⟩ := hadded line hline
  · refine oneLine_of_writes hwrites (hlinked _ hinstr)
      (isSpelled_ofScript hassigned.own hassigned.entryOwn hwords h _ hinstr) ?_ hnames
    intro label hlabel
    have hmem := List.mem_filterMap.mpr ⟨_, hinstr, hlabel⟩
    rw [hown] at hmem
    rcases List.mem_append.mp hmem with hmem | hmem
    · exact hentry label (Option.mem_toList.mp hmem)
    · obtain ⟨name, -, hname⟩ := List.mem_filterMap.mp hmem
      exact hnames name label hname
  · rw [hselects]
    exact (IsWord.oneLine hname).variableName.quoted
  · rw [hselects]
    decide

/-- The printed text of a program falls into the texts of its lines exactly if none of them holds a
line feed. This is so for every script without a line feed in a text literal. -/
theorem printed_by_instruction {options : Options} {jumps : LabelSupply} {final : Listing}
    (h : compile text options jumps = .ok final) (hne : final.lines.toList ≠ []) :
    ((final.render false false).toList.splitOn '\n' = final.lines.toList.map (·.text.toList) ↔
      ∀ line ∈ final.lines.toList, OneLine line.text) ∧
    ∀ body, Script.ofSource (.ofString text) = .ok body →
      (∀ s ∈ body, s.Named { Vocabulary.any with text := OneLine }) →
      (final.render false false).toList.splitOn '\n' = final.lines.toList.map (·.text.toList) := by
  refine ⟨Listing.splitOn_render_iff hne, fun body hbody htexts =>
    (Listing.splitOn_render_iff hne).mpr fun line hline => ?_⟩
  obtain ⟨body', labels, listing, hbody', hlabels, hlisting, rfl⟩ := compile_eq_ok.mp h
  cases hbody.symm.trans hbody'
  have hinstr := List.mem_map_of_mem (f := Line.instr) hline
  rw [← Listing.instrs, Listing.instrs_final] at hinstr
  obtain ⟨instr, hinstr, hfinal⟩ := List.mem_map.mp hinstr
  have hcode : OneLine instr.text := by
    rcases List.mem_append.mp hinstr with hinstr | hinstr
    · exact Listing.oneLine_ofScript hbody htexts hlabels hlisting instr hinstr
    · exact Listing.forall_mem_suffix (OneLine ·.text) (by decide) (by decide +kernel) instr hinstr
  have hline := oneLine_finalInstr hcode (options.library && !listing.needed.isEmpty &&
    options.localLibraryLabels)
  rwa [hfinal] at hline

theorem printed_by_instruction_lineFeed : ∃ final,
    compile "LBL(\"M\")\nx = \"a\\nb\"\n" {} = .ok final ∧
    (final.render false false).toList.splitOn '\n' ≠ final.lines.toList.map (·.text.toList) := by
  have hfacts : (compile "LBL(\"M\")\nx = \"a\\nb\"\n" {}).toOption.any (fun final =>
      ∃ line ∈ final.lines.toList, ¬ OneLine line.text) = true := by
    decide +kernel
  obtain ⟨final, hcompile, hfacts⟩ := exists_ok_of_any hfacts
  obtain ⟨line, hline, hfeed⟩ := of_decide_eq_true hfacts
  refine ⟨final, hcompile, fun hsplit => hfeed ?_⟩
  exact (printed_by_instruction hcompile (List.ne_nil_of_mem hline)).1.mp hsplit line hline

end Keystroke
