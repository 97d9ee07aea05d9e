import Mathlib.Data.List.DropRight
import Keystroke.Proofs.ListingText

/-!
# Lines and columns

A byte offset lies in a line and a column of the source text. Both are counted from one and stored
in 32 bits. Within that range they are exact, so that they determine the offset, and the text that
is shown for a line is what stands between line feeds.
-/

namespace Keystroke

theorem length_lineSegments (cs : List Char) : (lineSegments cs).length = cs.count '\n' + 1 := by
  induction cs with
  | nil => rfl
  | cons c rest ih =>
    by_cases hc : c = '\n'
    · simpa [lineSegments, cutLines, hc] using ih
    · simpa [lineSegments, cutLines, hc] using ih

/-- What is left out at the end of a line is carriage returns, and all of them. -/
theorem dropTrailingReturns_append (cs : List Char) : ∃ n,
    cs = dropTrailingReturns cs ++ List.replicate n '\r' ∧
      (dropTrailingReturns cs).getLast? ≠ some '\r' := by
  refine ⟨(cs.reverse.takeWhile (· == '\r')).length, ?_, fun hlast => ?_⟩
  · have hreturns : cs.reverse.takeWhile (· == '\r') =
        List.replicate (cs.reverse.takeWhile (· == '\r')).length '\r' :=
      List.eq_replicate_of_mem fun c hc => by simpa using List.mem_takeWhile_imp hc
    rw [← List.reverse_replicate, ← hreturns, dropTrailingReturns, ← List.reverse_append,
      List.takeWhile_append_dropWhile, List.reverse_reverse]
  · rw [dropTrailingReturns, List.getLast?_reverse] at hlast
    have hhead := List.head?_dropWhile_not (· == '\r') cs.reverse
    rw [hlast] at hhead
    cases hhead

namespace SourceText

variable {cs segment : List Char} {offset offset' line : Nat} {text : String}

/-- A text up to its last line feed. -/
def closedLines (cs : List Char) : List Char :=
  cs.rdropWhile (· != '\n')

theorem byteLength_append (cs rest : List Char) :
    byteLength (cs ++ rest) = byteLength cs + byteLength rest := by
  induction cs with
  | nil => exact (Nat.zero_add _).symm
  | cons c cs ih => rw [List.cons_append, byteLength, byteLength, ih, Nat.add_assoc]

theorem textBefore_prefix (offset : Nat) (cs : List Char) : textBefore offset cs <+: cs := by
  induction cs generalizing offset with
  | nil => exact List.nil_prefix
  | cons c rest ih =>
    rw [textBefore]
    split
    · exact List.cons_prefix_cons.mpr ⟨rfl, ih _⟩
    · exact List.nil_prefix

theorem byteLength_textBefore (offset : Nat) (cs : List Char) :
    byteLength (textBefore offset cs) ≤ offset := by
  induction cs generalizing offset with
  | nil => exact Nat.zero_le _
  | cons c rest ih =>
    rw [textBefore]
    split
    · have hrest := ih (offset - c.utf8Size)
      rw [byteLength]
      omega
    · exact Nat.zero_le _

theorem count_le_byteLength (cs : List Char) : cs.count '\n' ≤ byteLength cs := by
  induction cs with
  | nil => exact Nat.zero_le _
  | cons c rest ih =>
    have hsize := c.utf8Size_pos
    rw [List.count_cons, byteLength]
    split <;> omega

theorem closedLines_cons (c : Char) (rest : List Char) : closedLines (c :: rest) =
    if closedLines rest = [] then if c = '\n' then [c] else [] else c :: closedLines rest := by
  unfold closedLines List.rdropWhile
  rw [List.reverse_cons, List.dropWhile_append]
  by_cases hrest : rest.reverse.dropWhile (· != '\n') = []
  · by_cases hc : c = '\n' <;> simp [hrest, hc]
  · simp [hrest]

theorem closedLines_append {rest : List Char} (h : '\n' ∉ rest) :
    closedLines (cs ++ rest) = closedLines cs := by
  unfold closedLines List.rdropWhile
  rw [List.reverse_append, List.dropWhile_append_of_pos fun c hc => ?_]
  exact bne_iff_ne.mpr fun heq => h (heq ▸ List.mem_reverse.mp hc)

theorem byteLength_closedLines_textBefore (offset : Nat) (cs : List Char) :
    byteLength (closedLines (textBefore offset cs)) ≤ offset := by
  obtain ⟨rest, hrest⟩ : closedLines (textBefore offset cs) <+: textBefore offset cs :=
    List.rdropWhile_prefix _ _
  have hbytes := byteLength_textBefore offset cs
  rw [← hrest, byteLength_append] at hbytes
  exact Nat.le_trans (Nat.le_add_right _ _) hbytes

/-- No line but the first starts within a character. -/
theorem le_of_mem_startsAfter {base start : Nat} {c : Char} {rest : List Char}
    (h : start ∈ startsAfter base (c :: rest)) : base + c.utf8Size ≤ start := by
  have hlater : start ∈ startsAfter (base + c.utf8Size) rest → base + c.utf8Size ≤ start := by
    intro h
    cases rest with
    | nil => cases h
    | cons d rest => exact Nat.le_trans (Nat.le_add_right _ _) (le_of_mem_startsAfter h)
  rw [startsAfter] at h
  split at h
  · rcases List.mem_cons.mp h with rfl | h
    · exact Nat.le_refl _
    · exact hlater h
  · exact hlater h

/-- What the starts of lines say about an offset in a text that stands at `base` in the line which
starts at `start`. -/
theorem lineStart_startsAfter (start base offset : Nat) (cs : List Char)
    (hstart : start ≤ base + offset) :
    lineStart (base + offset) (start :: startsAfter base cs) =
      ((textBefore offset cs).count '\n' + 1, if closedLines (textBefore offset cs) = [] then start
        else base + byteLength (closedLines (textBefore offset cs))) := by
  induction cs generalizing start base offset with
  | nil => simp [lineStart, startsAfter, textBefore, closedLines, hstart]
  | cons c rest ih =>
    rw [textBefore]
    by_cases hoffset : c.utf8Size ≤ offset
    · have hsame : base + c.utf8Size + (offset - c.utf8Size) = base + offset := by omega
      rw [if_pos hoffset, startsAfter, closedLines_cons]
      by_cases hc : c = '\n'
      · subst hc
        rw [if_pos rfl, if_pos rfl, lineStart, if_pos hstart, ← hsame, ih _ _ _ (by omega)]
        by_cases hclosed : closedLines (textBefore (offset - '\n'.utf8Size) rest) = [] <;>
          simp [hclosed, byteLength, Nat.add_assoc]
      · rw [if_neg hc, if_neg hc, ← hsame, ih start _ _ (by omega)]
        by_cases hclosed : closedLines (textBefore (offset - c.utf8Size) rest) = [] <;>
          simp [hc, hclosed, byteLength, Nat.add_assoc]
    · rw [if_neg hoffset, lineStart, if_pos hstart]
      cases hstarts : startsAfter base (c :: rest) with
      | nil => rfl
      | cons next later =>
        have hnext := le_of_mem_startsAfter (hstarts ▸ List.mem_cons_self : next ∈ _)
        rw [lineStart, if_neg (by omega)]
        rfl

/-- An offset lies in the line after the line feeds in front of it, which starts after the last of
them. -/
theorem lineStart_ofString (text : String) (offset : Nat) :
    lineStart offset (ofString text).starts = ((textBefore offset text.toList).count '\n' + 1,
      byteLength (closedLines (textBefore offset text.toList))) := by
  have hstart := lineStart_startsAfter 0 0 offset text.toList (Nat.zero_le _)
  rw [Nat.zero_add, Nat.zero_add] at hstart
  rw [ofString, hstart]
  split
  · rename_i hclosed
    rw [hclosed]
    rfl
  · rfl

/-- With as many line feeds in front of them, two offsets lie in the same line. -/
theorem closedLines_eq_of_count
    (h : (textBefore offset cs).count '\n' = (textBefore offset' cs).count '\n') :
    closedLines (textBefore offset cs) = closedLines (textBefore offset' cs) := by
  have hlonger : ∀ {short long : List Char}, short <+: long → short.count '\n' = long.count '\n' →
      closedLines long = closedLines short := by
    rintro short _ ⟨extra, rfl⟩ hcount
    rw [List.count_append, Nat.left_eq_add, List.count_eq_zero] at hcount
    exact closedLines_append hcount
  have hbefore := textBefore_prefix offset cs
  have hbefore' := textBefore_prefix offset' cs
  rcases List.prefix_or_prefix_of_prefix hbefore hbefore' with hle | hle
  · exact (hlonger hle h).symm
  · exact hlonger hle h.symm

theorem position_ofString (text : String) (offset : Nat) :
    (ofString text).position offset = ⟨.ofNat ((textBefore offset text.toList).count '\n' + 1),
      .ofNat (offset - byteLength (closedLines (textBefore offset text.toList)) + 1)⟩ := by
  rw [position, lineStart_ofString]

/-- Line and column fit in 32 bits if the offset does not come too close to their end. -/
theorem position_toNat (text : String) (hoffset : offset + 1 < UInt32.size) :
    ((ofString text).position offset).line.toNat = (textBefore offset text.toList).count '\n' + 1 ∧
      ((ofString text).position offset).column.toNat =
        offset - byteLength (closedLines (textBefore offset text.toList)) + 1 := by
  have hcount := count_le_byteLength (textBefore offset text.toList)
  have hbytes := byteLength_textBefore offset text.toList
  rw [position_ofString]
  exact ⟨UInt32.toNat_ofNat_of_lt' (show _ < UInt32.size by omega),
    UInt32.toNat_ofNat_of_lt' (show _ < UInt32.size by omega)⟩

theorem position_injective (text : String) (hoffset : offset + 1 < UInt32.size)
    (hoffset' : offset' + 1 < UInt32.size)
    (h : (ofString text).position offset = (ofString text).position offset') :
    offset = offset' := by
  obtain ⟨hline, hcolumn⟩ := position_toNat text hoffset
  obtain ⟨hline', hcolumn'⟩ := position_toNat text hoffset'
  have hle := byteLength_closedLines_textBefore offset text.toList
  have hle' := byteLength_closedLines_textBefore offset' text.toList
  rw [h, hline', Nat.add_right_cancel_iff] at hline
  rw [closedLines_eq_of_count hline] at hcolumn' hle'
  rw [h] at hcolumn
  omega

/-! ### The text of a line -/

theorem textBefore_append (cs rest : List Char) : textBefore (byteLength cs) (cs ++ rest) = cs := by
  induction cs with
  | nil =>
    cases rest with
    | nil => rfl
    | cons c rest => exact if_neg (Nat.not_le.mpr c.utf8Size_pos)
  | cons c cs ih =>
    rw [List.cons_append, textBefore, byteLength, if_pos (Nat.le_add_right _ _),
      Nat.add_sub_cancel_left, ih]

theorem length_startsAfter (base : Nat) (cs : List Char) :
    (startsAfter base cs).length = cs.count '\n' := by
  induction cs generalizing base with
  | nil => rfl
  | cons c rest ih => by_cases hc : c = '\n' <;> simp [startsAfter, hc, ih]

/-- A text is one line, or its first line, a line feed, and the text after it. -/
theorem first_line (cs : List Char) :
    (lineSegments cs = [cs] ∧ ∀ base, startsAfter base cs = []) ∨
      ∃ line rest, cs = line ++ '\n' :: rest ∧ lineSegments cs = line :: lineSegments rest ∧
        ∀ base, startsAfter base cs =
          (base + byteLength line + 1) :: startsAfter (base + byteLength line + 1) rest := by
  induction cs with
  | nil => exact Or.inl ⟨rfl, fun _ => rfl⟩
  | cons c rest ih =>
    by_cases hc : c = '\n'
    · subst hc
      exact Or.inr ⟨[], rest, rfl, rfl, fun base => rfl⟩
    · have hsegments : ∀ {line lines}, lineSegments rest = line :: lines →
          lineSegments (c :: rest) = (c :: line) :: lines := by
        intro line lines h
        simp only [lineSegments, List.cons.injEq] at h
        simp [lineSegments, cutLines, hc, h]
      have hstarts : ∀ base, startsAfter base (c :: rest) = startsAfter (base + c.utf8Size) rest :=
        fun base => if_neg hc
      rcases ih with ⟨hone, hnone⟩ | ⟨line, later, rfl, hfirst, hlater⟩
      · exact Or.inl ⟨hsegments hone, fun base => (hstarts base).trans (hnone _)⟩
      · refine Or.inr ⟨c :: line, later, rfl, hsegments hfirst, fun base => ?_⟩
        rw [hstarts, hlater, byteLength, Nat.add_assoc base]

/-- The table of line starts, from a line on that has `before` in front of it, says where each line
starts and, but for the last, where the next one does. -/
theorem line_bounds {index : Nat} (before : List Char)
    (h : (lineSegments cs)[index]? = some segment) :
    ∃ earlier later, before ++ cs = earlier ++ segment ++ later ∧
      (byteLength before :: startsAfter (byteLength before) cs)[index]? =
        some (byteLength earlier) ∧
      match (startsAfter (byteLength before) cs)[index]? with
      | some next => next = byteLength (earlier ++ segment) + 1
      | none => later = [] := by
  induction index generalizing before cs with
  | zero =>
    rcases first_line cs with ⟨hone, hnone⟩ | ⟨line, rest, rfl, hfirst, hlater⟩
    · rw [hone] at h
      cases h
      exact ⟨before, [], (List.append_nil _).symm, rfl, by simp [hnone]⟩
    · rw [hfirst] at h
      cases h
      refine ⟨before, '\n' :: rest, (List.append_assoc _ _ _).symm, rfl, ?_⟩
      simp [hlater, byteLength_append]
  | succ index ih =>
    rcases first_line cs with ⟨hone, -⟩ | ⟨line, rest, rfl, hfirst, hlater⟩
    · rw [hone] at h
      cases h
    · rw [hfirst, List.getElem?_cons_succ] at h
      have hbefore : byteLength (before ++ line ++ ['\n']) =
          byteLength before + byteLength line + 1 := by
        rw [byteLength_append, byteLength_append]
        rfl
      obtain ⟨earlier, later, htext, hstart, hnext⟩ := ih (before ++ line ++ ['\n']) h
      rw [hbefore] at hstart hnext
      refine ⟨earlier, later, by simpa using htext, ?_, ?_⟩
      · rwa [hlater, List.getElem?_cons_succ]
      · rwa [hlater, List.getElem?_cons_succ]

/-- A line is shown as it stands between line feeds, without the carriage returns at its end. -/
theorem lineText_succ (h : (text.toList.splitOn '\n')[line]? = some segment) :
    ∃ shown n, (ofString text).lineText (line + 1) = String.ofList shown ∧
      segment = shown ++ List.replicate n '\r' ∧ shown.getLast? ≠ some '\r' := by
  obtain ⟨n, hsegment, hlast⟩ := dropTrailingReturns_append segment
  refine ⟨dropTrailingReturns segment, n, ?_, hsegment, hlast⟩
  rw [← lineSegments_eq_splitOn] at h
  obtain ⟨earlier, later, htext, hstart, hnext⟩ := line_bounds [] h
  rw [List.nil_append] at htext
  have hslice :
      (ofString text).slice (byteLength earlier) (byteLength (earlier ++ segment)) = segment := by
    rw [slice, ofString, htext, textBefore_append, List.append_assoc, textBefore_append,
      List.drop_left]
  rw [lineText, show (ofString text).starts[line]? = some (byteLength earlier) from hstart]
  dsimp only
  rw [show (ofString text).starts[line + 1]? = (startsAfter 0 text.toList)[line]? from rfl]
  change match (startsAfter 0 text.toList)[line]? with
    | some next => next = byteLength (earlier ++ segment) + 1
    | none => later = [] at hnext
  -- the line ends before the next one starts, or with the text
  cases hfound : (startsAfter 0 text.toList)[line]? with
  | some next =>
    rw [hfound] at hnext
    subst hnext
    exact congrArg (String.ofList ∘ dropTrailingReturns) hslice
  | none =>
    rw [hfound] at hnext
    subst hnext
    rw [← List.append_nil (earlier ++ segment), ← htext] at hslice
    exact congrArg (String.ofList ∘ dropTrailingReturns) hslice

theorem lineText_eq_empty (h : line = 0 ∨ text.toList.count '\n' + 1 < line) :
    (ofString text).lineText line = "" := by
  cases line with
  | zero => rfl
  | succ index =>
    have hnone : (ofString text).starts[index]? = none := by
      rw [List.getElem?_eq_none_iff, ofString, List.length_cons, length_startsAfter]
      omega
    rw [lineText, hnone]

/-- Positions are exact but for the width of their two numbers, and lines are shown as they stand in
the text. -/
theorem source_positions (text : String) :
    (∀ offset,
        ((ofString text).position offset).line.toNat =
          ((textBefore offset text.toList).count '\n' + 1) % UInt32.size ∧
        ((ofString text).position offset).column.toNat =
          (offset - byteLength (closedLines (textBefore offset text.toList)) + 1) % UInt32.size) ∧
      (∀ offset, offset + 1 < UInt32.size →
        ((ofString text).position offset).line.toNat =
            (textBefore offset text.toList).count '\n' + 1 ∧
          ((ofString text).position offset).column.toNat =
            offset - byteLength (closedLines (textBefore offset text.toList)) + 1) ∧
      (∀ offset offset', offset + 1 < UInt32.size → offset' + 1 < UInt32.size →
        (ofString text).position offset = (ofString text).position offset' → offset = offset') ∧
      (text.toList.splitOn '\n').length = text.toList.count '\n' + 1 ∧
      (∀ line segment, (text.toList.splitOn '\n')[line]? = some segment →
        ∃ shown n, (ofString text).lineText (line + 1) = String.ofList shown ∧
          segment = shown ++ List.replicate n '\r' ∧ shown.getLast? ≠ some '\r') ∧
      ∀ line, line = 0 ∨ text.toList.count '\n' + 1 < line →
        (ofString text).lineText line = "" := by
  refine ⟨fun offset => ?_, fun _ => position_toNat text, fun _ _ => position_injective text, ?_,
    fun _ _ => lineText_succ, fun _ => lineText_eq_empty⟩
  · rw [position_ofString]
    exact ⟨UInt32.toNat_ofNat', UInt32.toNat_ofNat'⟩
  · rw [← lineSegments_eq_splitOn, length_lineSegments]

/-- Far behind the end of a text the column starts again from one. -/
theorem position_wraps : (ofString "").position (UInt32.size) = (ofString "").position 0 := by
  decide +kernel

end SourceText

end Keystroke
