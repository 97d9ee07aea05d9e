import Mathlib.Data.List.Basic
import Keystroke.Proofs.NamedTrees

/-!
# The texts of lines

A line of a program is printed as text, and whether it is a call, and what it calls, can be read off
that text again: the mnemonic ends at the first blank, and no two labels are written alike. Lines
that enter a text or a number are never taken for anything else.
-/

namespace Keystroke

/-! ### Numbers -/

theorem isDigit_of_mem_decimal {n : Nat} {c : Char} (h : c ∈ (decimal n).toList) :
    c.isDigit = true := by
  rw [decimal, String.toList_ofList] at h
  exact Nat.isDigit_of_mem_toDigits (by decide) (by decide) h

theorem isDigit_of_mem_twoDigits {n : Nat} {c : Char} (h : c ∈ (twoDigits n).toList) :
    c.isDigit = true := by
  unfold twoDigits at h
  split at h
  · rw [String.toList_append] at h
    rcases List.mem_append.mp h with hzero | h
    · obtain rfl : c = '0' := by simpa using hzero
      rfl
    · exact isDigit_of_mem_decimal h
  · exact isDigit_of_mem_decimal h

theorem two_le_length_twoDigits (n : Nat) : 2 ≤ (twoDigits n).toList.length := by
  unfold twoDigits decimal
  split
  · have hpos : 0 < (Nat.toDigits 10 n).length := Nat.length_toDigits_pos
    simp only [String.toList_append, String.toList_ofList, List.length_append, String.length_toList]
    have hzero : "0".length = 1 := rfl
    omega
  · rename_i hten
    have hlong : ¬ (Nat.toDigits 10 n).length ≤ 1 := by
      rw [Nat.length_toDigits_le_iff (by decide) (by decide)]
      simpa using hten
    rw [String.toList_ofList]
    omega

/-- A number can be read off its digits. -/
theorem twoDigits_injective {n m : Nat} (h : twoDigits n = twoDigits m) : n = m := by
  have hread : ∀ n, Nat.ofDigitChars 10 (twoDigits n).toList 0 = n := by
    intro n
    unfold twoDigits decimal
    split
    · have hzero :
          ("0" ++ String.ofList (Nat.toDigits 10 n)).toList = '0' :: Nat.toDigits 10 n := by
        simp
      rw [hzero, Nat.ofDigitChars_cons]
      exact Nat.ofDigitChars_ten_toDigits
    · rw [String.toList_ofList]
      exact Nat.ofDigitChars_ten_toDigits
  rw [← hread n, h, hread m]

/-! ### Labels -/

/-- No two labels are written alike. -/
theorem Label.text_injective {label other : Label} (h : label.text = other.text) :
    label = other := by
  have hlists := congrArg String.toList h
  have hquote : ∀ (name : String) n, ("\"" ++ name ++ "\"").toList ≠ (twoDigits n).toList := by
    intro name n heq
    have hmem : '"' ∈ (twoDigits n).toList := by
      rw [← heq]
      simp
    exact absurd (isDigit_of_mem_twoDigits hmem) (by decide)
  have hdigit : ∀ n (c : Char), (twoDigits n).toList ≠ [c] := by
    intro n c heq
    have hlength := two_le_length_twoDigits n
    rw [heq] at hlength
    simp at hlength
  cases label with
  | global name =>
    cases other with
    | global name' =>
      simp only [text, String.toList_append] at hlists
      rw [String.toList_inj.mp (List.append_cancel_left (List.append_cancel_right hlists))]
    | letter c => simp [text] at hlists
    | number n => exact (hquote name n hlists).elim
  | letter c =>
    cases other with
    | global name => simp [text] at hlists
    | letter c' => simpa [text] using hlists
    | number n => exact (hdigit n c (by simpa [text] using hlists.symm)).elim
  | number n =>
    cases other with
    | global name => exact (hquote name n hlists.symm).elim
    | letter c => exact (hdigit n c (by simpa [text] using hlists)).elim
    | number m => rw [twoDigits_injective h]

/-! ### Mnemonics -/

/-- A text is cut at its first blank in one way only. -/
theorem eq_of_append_blank {before before' after after' : List Char} (hbefore : ' ' ∉ before)
    (hbefore' : ' ' ∉ before') (h : before ++ ' ' :: after = before' ++ ' ' :: after') :
    before = before' ∧ after = after' := by
  induction before generalizing before' with
  | nil =>
    cases before' with
    | nil => exact ⟨rfl, by simpa using h⟩
    | cons c rest =>
      simp only [List.nil_append, List.cons_append, List.cons.injEq] at h
      exact (hbefore' (h.1 ▸ List.mem_cons_self)).elim
  | cons c rest ih =>
    cases before' with
    | nil =>
      simp only [List.nil_append, List.cons_append, List.cons.injEq] at h
      exact (hbefore (h.1 ▸ List.mem_cons_self)).elim
    | cons c' rest' =>
      simp only [List.cons_append, List.cons.injEq] at h
      obtain ⟨hrest, hafter⟩ := ih (fun hmem => hbefore (List.mem_cons_of_mem c hmem))
        (fun hmem => hbefore' (List.mem_cons_of_mem c' hmem)) h.2
      exact ⟨by rw [h.1, hrest], hafter⟩

namespace Instr

/-- An instruction whose text is not read as another one: its numbers start like numbers, and it is
not given as text. -/
def IsLegible : Instr → Prop
  | verbatim _ => False
  | decimal spelling => Python.StartsAsNumber spelling
  | _ => True

/-- Whether an instruction is legible whatever its operands are. -/
def isFixed : Instr → Bool
  | verbatim _ | decimal _ => false
  | _ => true

theorem isLegible_of_isFixed {instr : Instr} (h : instr.isFixed = true) : instr.IsLegible := by
  cases instr with
  | verbatim text => cases h
  | decimal spelling => cases h
  | _ => trivial

/-- What an instruction of two words does, and to what. -/
def operation? : Instr → Option (String × String)
  | memory o operand => some (o.mnemonic, operand.text)
  | flag o operand => some (o.mnemonic, operand.text)
  | setting o n => some (o.mnemonic, twoDigits n)
  | lbl label => some ("LBL", label.text)
  | gto n => some ("GTO", twoDigits n)
  | xeq label => some ("XEQ", label.text)
  | _ => none

variable {instr : Instr} {mnemonic operand : String}

theorem text_of_operation? (h : instr.operation? = some (mnemonic, operand)) :
    instr.text = mnemonic ++ " " ++ operand ∧ ' ' ∉ mnemonic.toList := by
  cases instr with
  | memory o operand => cases h; exact ⟨rfl, by cases o <;> decide⟩
  | flag o operand => cases h; exact ⟨rfl, by cases o <;> decide⟩
  | setting o n => cases h; exact ⟨rfl, by cases o <;> decide⟩
  | lbl label => cases h; exact ⟨rfl, by decide⟩
  | gto n => cases h; exact ⟨rfl, by decide⟩
  | xeq label => cases h; exact ⟨rfl, by decide⟩
  | _ => cases h

/-- A line without an operand has no blank, or it does not start like a call or a label. -/
theorem blank_notMem_text_or_head (hlegible : instr.IsLegible) (h : instr.operation? = none) :
    ' ' ∉ instr.text.toList ∨ ∀ c ∈ instr.text.toList.head?, c ≠ 'X' ∧ c ≠ 'L' := by
  cases instr with
  | int value =>
    refine Or.inl fun hmem => ?_
    exact absurd (isDigit_of_mem_decimal hmem) (by decide)
  | decimal spelling =>
    refine Or.inr fun c hc => ?_
    rcases hlegible c hc with hdigit | rfl
    · constructor
      all_goals
        rintro rfl
        exact absurd hdigit (by decide)
    · decide
  | alpha text =>
    refine Or.inr fun c hc => ?_
    obtain rfl : c = '"' := by simpa [Instr.text] using hc.symm
    decide
  | alphaAppend text =>
    refine Or.inr fun c hc => ?_
    obtain rfl : c = appendMark := by simpa [Instr.text] using hc.symm
    decide
  | op o => exact Or.inl (by cases o <;> decide)
  | verbatim text => exact hlegible.elim
  | _ => cases h

/-- Calls and labels can be told from other lines by their texts. -/
theorem text_eq_iff (hlegible : instr.IsLegible) (hmnemonic : mnemonic = "XEQ" ∨ mnemonic = "LBL") :
    instr.text = mnemonic ++ " " ++ operand ↔ instr.operation? = some (mnemonic, operand) := by
  have hblank : ' ' ∉ mnemonic.toList := by
    rcases hmnemonic with rfl | rfl <;> decide
  have hhead : ∃ c rest, mnemonic.toList = c :: rest ∧ (c = 'X' ∨ c = 'L') := by
    rcases hmnemonic with rfl | rfl
    · exact ⟨'X', ['E', 'Q'], by decide, Or.inl rfl⟩
    · exact ⟨'L', ['B', 'L'], by decide, Or.inr rfl⟩
  constructor
  · intro h
    have hlists : instr.text.toList = mnemonic.toList ++ ' ' :: operand.toList := by
      rw [h]
      simp
    cases hoperation : instr.operation? with
    | none =>
      rcases blank_notMem_text_or_head hlegible hoperation with hnone | hother
      · rw [hlists] at hnone
        simp at hnone
      · obtain ⟨c, rest, hchars, hc⟩ := hhead
        rw [hlists, hchars] at hother
        obtain ⟨hX, hL⟩ := hother c rfl
        exact (hc.elim hX hL).elim
    | some found =>
      obtain ⟨mnemonic', operand'⟩ := found
      obtain ⟨htext, hblank'⟩ := text_of_operation? hoperation
      rw [htext] at hlists
      obtain ⟨hfst, hsnd⟩ := eq_of_append_blank hblank' hblank (by simpa using hlists)
      rw [String.toList_inj.mp hfst, String.toList_inj.mp hsnd]
  · exact fun h => (text_of_operation? h).1

/-- The words of a call and of a label are the words of nothing else. -/
theorem operation?_eq_iff :
    (instr.operation? = some ("XEQ", operand) ↔ ∃ label, instr = .xeq label ∧
      label.text = operand) ∧
    (instr.operation? = some ("LBL", operand) ↔ ∃ label, instr = .lbl label ∧
      label.text = operand) := by
  cases instr with
  | memory o _ => cases o <;> simp [operation?, MemoryOp.mnemonic]
  | flag o _ => cases o <;> simp [operation?, FlagOp.mnemonic]
  | setting o _ => cases o <;> simp [operation?, Setting.mnemonic]
  | _ => simp [operation?]

/-- A legible line is a call exactly if it is written as one. -/
theorem text_eq_xeq_iff (h : instr.IsLegible) :
    instr.text = "XEQ " ++ operand ↔ ∃ label, instr = .xeq label ∧ label.text = operand := by
  rw [← operation?_eq_iff.1, ← text_eq_iff h (Or.inl rfl)]
  rfl

/-- A legible line places a label exactly if it is written as one that does. -/
theorem text_eq_lbl_iff (h : instr.IsLegible) :
    instr.text = "LBL " ++ operand ↔ ∃ label, instr = .lbl label ∧ label.text = operand := by
  rw [← operation?_eq_iff.2, ← text_eq_iff h (Or.inr rfl)]
  rfl

theorem text_xeq_inj {label other : Label} : (xeq label).text = (xeq other).text ↔ label = other :=
  ⟨fun h => Label.text_injective ((String.append_right_inj "XEQ ").mp h), congrArg fun label =>
    (xeq label).text⟩

theorem text_lbl_inj {label other : Label} : (lbl label).text = (lbl other).text ↔ label = other :=
  ⟨fun h => Label.text_injective ((String.append_right_inj "LBL ").mp h), congrArg fun label =>
    (lbl label).text⟩

theorem text_xeq_ne_text_lbl (label other : Label) : (xeq label).text ≠ (lbl other).text := by
  intro h
  have hlegible : (xeq label).IsLegible := trivial
  obtain ⟨found, hfound, -⟩ := (text_eq_lbl_iff hlegible).mp h
  cases hfound

/-! ### Reading a line -/

theorem quoted?_eq_some_iff {opening cs : List Char} {name : String} :
    quoted? opening cs = some name ↔ cs = opening ++ (name.toList ++ ['"']) := by
  unfold quoted?
  split
  · rename_i hopening
    obtain ⟨rest, rfl⟩ := List.isPrefixOf_iff_prefix.mp hopening
    rw [List.drop_left, List.append_cancel_left_eq]
    split
    · rename_i inner hrest
      have hrest : rest = inner.reverse ++ ['"'] := by
        rw [← List.reverse_reverse rest, hrest, List.reverse_cons]
      rw [hrest, Option.some.injEq, List.append_cancel_right_eq]
      constructor
      · rintro rfl
        rw [String.toList_ofList]
      · intro hname
        rw [hname, String.ofList_toList]
    · rename_i hnone
      simp only [reduceCtorEq, false_iff]
      rintro rfl
      exact hnone name.toList.reverse (by simp)
  · rename_i hopening
    simp only [reduceCtorEq, false_iff]
    rintro rfl
    exact hopening (List.isPrefixOf_iff_prefix.mpr (List.prefix_append _ _))

/-- What is read from a line of text: a call or a label with a quoted name, if it is written as one,
and the text itself otherwise. -/
theorem ofText_cases (line : String) :
    (∃ name, line = (xeq (.global name)).text ∧ ofText line = xeq (.global name)) ∨
      (∃ name, line = (lbl (.global name)).text ∧ ofText line = lbl (.global name)) ∨
      ((∀ name, line ≠ (xeq (.global name)).text) ∧ (∀ name, line ≠ (lbl (.global name)).text) ∧
        ofText line = verbatim line) := by
  have hquoted : ∀ (mnemonic name : String),
      quoted? (mnemonic ++ " \"").toList line.toList = some name ↔
        line = mnemonic ++ " " ++ (Label.global name).text := by
    intro mnemonic name
    rw [quoted?_eq_some_iff, ← String.toList_inj]
    simp [Label.text]
  have hxeq := hquoted "XEQ"
  have hlbl := hquoted "LBL"
  unfold ofText
  cases hcall : quoted? "XEQ \"".toList line.toList with
  | some name => exact Or.inl ⟨name, (hxeq name).mp hcall, rfl⟩
  | none =>
    cases hlabel : quoted? "LBL \"".toList line.toList with
    | some name => exact Or.inr (Or.inl ⟨name, (hlbl name).mp hlabel, rfl⟩)
    | none =>
      refine Or.inr (Or.inr ⟨fun name heq => ?_, fun name heq => ?_, rfl⟩)
      · rw [show quoted? "XEQ \"".toList line.toList = some name from (hxeq name).mpr heq] at hcall
        cases hcall
      · rw [show quoted? "LBL \"".toList line.toList = some name from (hlbl name).mpr heq] at hlabel
        cases hlabel

end Instr

end Keystroke
