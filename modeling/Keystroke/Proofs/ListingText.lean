import Mathlib.Data.List.DropRight
import Keystroke.Proofs.LineTexts

/-!
# The text of a listing

A printed listing is cut into lines again at its line feeds, and the comment of a line starts at the
first two slashes of it. So a listing can be read back from its printed form when the texts of its
lines hold neither.
-/

namespace Keystroke

/-! ### Line feeds -/

theorem lineSegments_eq_splitOn (cs : List Char) : lineSegments cs = cs.splitOn '\n' := by
  induction cs with
  | nil => rfl
  | cons c rest ih =>
    rw [List.splitOn_eq_splitOnP, List.splitOnP_cons_eq_if_modifyHead,
      ← List.splitOn_eq_splitOnP, ← ih]
    by_cases hc : c = '\n' <;> simp [lineSegments, cutLines, hc]

theorem newline_notMem_cutLines (cs : List Char) :
    '\n' ∉ (cutLines cs).1 ∧ ∀ line ∈ (cutLines cs).2, '\n' ∉ line := by
  induction cs with
  | nil => simp [cutLines]
  | cons c rest ih =>
    by_cases hc : c = '\n'
    · simpa [cutLines, hc] using ih
    · simpa [cutLines, hc, Ne.symm hc] using ih

/-- Texts are told apart again after joining them by line feeds exactly if none of them holds
one. -/
theorem splitOn_intercalate_iff {texts : List (List Char)} (hne : texts ≠ []) :
    (['\n'].intercalate texts).splitOn '\n' = texts ↔ ∀ text ∈ texts, '\n' ∉ text := by
  constructor
  · intro h text htext
    rw [← h, ← lineSegments_eq_splitOn] at htext
    obtain ⟨hfirst, hlater⟩ := newline_notMem_cutLines (['\n'].intercalate texts)
    rcases List.mem_cons.mp htext with rfl | hmem
    · exact hfirst
    · exact hlater text hmem
  · exact fun h => List.splitOn_intercalate '\n' h hne

namespace Listing

variable {listing : Listing}

/-- Only numbered lines depend on their numbers. -/
theorem toList_render (listing : Listing) (comments : Bool) :
    (listing.render comments false).toList = ['\n'].intercalate
      (listing.lines.toList.map fun line => (renderLine comments false line 0).toList) := by
  rw [render, String.toList_intercalate]
  conv_rhs => rw [← List.zipIdx_map_fst 0 listing.lines.toList]
  simp only [List.map_map, Function.comp_def]
  rfl

/-- A listing prints one line for each instruction exactly if no text of it holds a line feed. -/
theorem splitOn_render_iff (hne : listing.lines.toList ≠ []) :
    (listing.render false false).toList.splitOn '\n' = listing.lines.toList.map (·.text.toList) ↔
      ∀ line ∈ listing.lines.toList, '\n' ∉ line.text.toList := by
  have htext : ∀ line, renderLine false false line 0 = line.text := by
    intro line
    cases hcomment : line.comment <;> simp [renderLine, hcomment]
  simp only [toList_render, htext]
  rw [splitOn_intercalate_iff (by simpa using hne)]
  simp

end Listing

/-! ### Blanks -/

section Blanks

variable {cs blanks : List Char}

theorem trimChars_append_blanks (h : ∀ c ∈ blanks, isBlank c = true) :
    trimChars (cs ++ blanks) = trimChars cs := by
  rw [trimChars, trimChars, List.dropWhile_append]
  split
  · rename_i hnone
    rw [List.dropWhile_eq_nil_iff.mpr h, List.isEmpty_iff.mp hnone]
  · rw [List.reverse_append, List.dropWhile_append_of_pos (by simpa using h)]

theorem length_trimChars_le (cs : List Char) : (trimChars cs).length ≤ cs.length := by
  rw [trimChars, List.length_reverse]
  refine ((List.dropWhile_suffix _).length_le).trans ?_
  rw [List.length_reverse]
  exact (List.dropWhile_suffix _).length_le

/-- Trimmed text does not end with a carriage return. -/
theorem reverse_ne_return (h : trimChars cs = cs) (rest : List Char) :
    cs.reverse ≠ '\r' :: rest := by
  intro hreverse
  obtain rfl : cs = rest.reverse ++ ['\r'] := by
    rw [← List.reverse_reverse cs, hreverse, List.reverse_cons]
  rw [trimChars_append_blanks (List.forall_mem_singleton.mpr rfl)] at h
  have hle := length_trimChars_le rest.reverse
  rw [h, List.length_append, List.length_singleton] at hle
  omega

end Blanks

/-! ### Comments -/

theorem splitAtFirst?_of_not_infix {pattern cs : List Char} (h : ¬ pattern <:+: cs) :
    splitAtFirst? pattern cs = none := by
  induction cs with
  | nil => rfl
  | cons c rest ih =>
    rw [List.infix_cons_iff, not_or] at h
    rw [splitAtFirst?, if_neg (by simpa using h.1), ih h.2]
    rfl

/-- A comment starts behind the text when the text itself has no two slashes in a row. -/
theorem splitAtFirst?_comment {text comment : List Char} (h : ¬ ['/', '/'] <:+: text) (gap : Nat) :
    splitAtFirst? ['/', '/'] (text ++ (List.replicate (gap + 1) ' ' ++ '/' :: '/' :: comment)) =
      some (text ++ List.replicate (gap + 1) ' ', comment) := by
  induction text with
  | nil =>
    induction gap with
    | zero => simp [splitAtFirst?]
    | succ gap ih =>
      rw [List.replicate_succ, List.nil_append, List.cons_append, splitAtFirst?]
      simpa using ih
  | cons c rest ih =>
    rw [List.infix_cons_iff, not_or] at h
    -- behind the text stands a blank, so slashes in a row would be in the text
    have hhead :
        ¬ ['/', '/'] <+: c :: rest ++ (List.replicate (gap + 1) ' ' ++ '/' :: '/' :: comment) := by
      intro hslashes
      cases rest with
      | nil => simp [List.replicate_succ, List.cons_prefix_cons] at hslashes
      | cons d rest =>
        apply h.1
        simpa [List.cons_prefix_cons] using hslashes
    rw [List.cons_append, splitAtFirst?, if_neg (by simpa using hhead), ih h.2]
    rfl

/-- A text that puts characters into the alpha register: it starts with a quote, or with the append
mark and a quote. -/
def StartsAsText (text : String) : Prop :=
  ['"'] <+: text.toList ∨ [Instr.appendMark, '"'] <+: text.toList

theorem Line.kindOfText_eq_string_iff {text : String} :
    kindOfText text.toList = .string ↔ StartsAsText text := by
  unfold StartsAsText kindOfText
  split
  · rename_i rest htext
    simp [htext, List.cons_prefix_cons]
  · rename_i mark rest hquote htext
    have hquote : '"' ≠ mark := fun h => hquote h.symm
    by_cases hmark : mark = Instr.appendMark
    · simp [htext, hmark, List.cons_prefix_cons]
    · simp [htext, hmark, Ne.symm hmark, hquote, List.cons_prefix_cons]
  · rename_i hquote hmark
    simp only [reduceCtorEq, false_iff, not_or]
    constructor
    · rintro ⟨rest, h⟩
      exact hquote rest h.symm
    · rintro ⟨rest, h⟩
      exact hmark _ rest h.symm

theorem Instr.text_ofText (line : String) : (ofText line).text = line := by
  rcases ofText_cases line with ⟨name, htext, h⟩ | ⟨name, htext, h⟩ | ⟨-, -, h⟩
  · rw [h, ← htext]
  · rw [h, ← htext]
  · rw [h, text]

/-- A line that can be read back from its printed form. -/
structure Line.IsReadable (line : Line) : Prop where
  text_ne : line.text ≠ ""
  trim_text : trim line.text = line.text
  newline_notMem : '\n' ∉ line.text.toList
  not_slashes : ¬ ['/', '/'] <:+: line.text.toList
  kind_iff : line.kind = .string ↔ StartsAsText line.text
  comment : ∀ comment ∈ line.comment,
    comment ≠ "" ∧ trim comment = comment ∧ '\n' ∉ comment.toList

/-- What a line shows: its text, its comment and its kind. -/
def Line.shown (line : Line) : String × Option String × LineKind :=
  (line.text, line.comment, line.kind)

namespace Line.IsReadable

variable {line : Line}

theorem trimChars_eq {text : String} (h : trim text = text) :
    trimChars text.toList = text.toList := by
  rw [← String.toList_inj, trim, String.toList_ofList] at h
  exact h

theorem kind_eq (h : line.IsReadable) : kindOfText line.text.toList = line.kind := by
  have hiff := kindOfText_eq_string_iff.trans h.kind_iff.symm
  cases hkind : line.kind <;> cases hread : kindOfText line.text.toList <;> simp_all

theorem toList_renderLine {comment : String} (hcomment : line.comment = some comment) :
    ∃ gap, (Listing.renderLine true false line 0).toList = line.text.toList ++
      (List.replicate (gap + 1) ' ' ++ '/' :: '/' :: ' ' :: comment.toList) := by
  have hgap : ∃ gap, (if line.text.length < Listing.commentColumn then
      Listing.commentColumn - line.text.length else 1) = gap + 1 := by
    split
    · exact ⟨Listing.commentColumn - line.text.length - 1, by omega⟩
    · exact ⟨0, rfl⟩
  obtain ⟨gap, hgap⟩ := hgap
  refine ⟨gap, ?_⟩
  simp [Listing.renderLine, hcomment, Listing.withComment, hgap]

/-- A printed line is neither empty nor cut, and no part of its end is taken for a line end. -/
theorem isLine (h : line.IsReadable) : let printed := (Listing.renderLine true false line 0).toList
    '\n' ∉ printed ∧ printed ≠ [] ∧ ∀ rest, printed.reverse ≠ '\r' :: rest := by
  have htext : line.text.toList ≠ [] := by simpa using h.text_ne
  cases hcomment : line.comment with
  | none =>
    have hprinted : Listing.renderLine true false line 0 = line.text := by
      simp [Listing.renderLine, hcomment]
    rw [hprinted]
    exact ⟨h.newline_notMem, htext, reverse_ne_return (trimChars_eq h.trim_text)⟩
  | some comment =>
    obtain ⟨hne, htrim, hnewline⟩ := h.comment comment hcomment
    obtain ⟨gap, hprinted⟩ := toList_renderLine hcomment
    rw [hprinted]
    refine ⟨by simp [h.newline_notMem, hnewline], by simp, fun rest hreverse => ?_⟩
    -- the last character is that of the comment
    cases hlast : comment.toList.reverse with
    | nil => exact hne (by simpa using hlast)
    | cons c before =>
      refine reverse_ne_return (trimChars_eq htrim) before ?_
      simp only [List.reverse_append, List.reverse_cons, hlast, List.cons_append] at hreverse
      rw [hlast, (List.cons.inj hreverse).1]

theorem ofListingText?_renderLine (h : line.IsReadable) :
    ofListingText? (Listing.renderLine true false line 0).toList =
      some { line with instr := .ofText line.text } := by
  have htrim := trimChars_eq h.trim_text
  have hne : line.text.toList.isEmpty = false := by simpa using h.text_ne
  cases hcomment : line.comment with
  | none =>
    have hprinted : Listing.renderLine true false line 0 = line.text := by
      simp [Listing.renderLine, hcomment]
    simp [ofListingText?, hprinted, splitAtFirst?_of_not_infix h.not_slashes, htrim, hne, h.kind_eq,
      String.ofList_toList]
  | some comment =>
    obtain ⟨hcommentNe, hcommentTrim, -⟩ := h.comment comment hcomment
    obtain ⟨gap, hprinted⟩ := toList_renderLine hcomment
    have hafter : trimChars (' ' :: comment.toList) = comment.toList := by
      rw [trimChars, List.dropWhile_cons_of_pos rfl]
      exact trimChars_eq hcommentTrim
    have hbefore : trimChars (line.text.toList ++ List.replicate (gap + 1) ' ') =
        line.text.toList :=
      (trimChars_append_blanks fun c hc => List.eq_of_mem_replicate hc ▸ by decide).trans htrim
    simp [ofListingText?, hprinted, splitAtFirst?_comment h.not_slashes, hafter, hbefore, hne,
      hcommentNe, h.kind_eq, String.ofList_toList]

end Line.IsReadable

namespace Listing

theorem textLines_intercalate {texts : List (List Char)}
    (h : ∀ text ∈ texts, '\n' ∉ text ∧ text ≠ [] ∧ ∀ rest, text.reverse ≠ '\r' :: rest) :
    textLines (['\n'].intercalate texts) = texts := by
  rcases List.eq_nil_or_concat texts with rfl | ⟨closed, last, rfl⟩
  · rfl
  · unfold textLines
    rw [lineSegments_eq_splitOn, List.splitOn_intercalate '\n' (fun text htext => (h text htext).1)
      (by simp)]
    have hlast : last.isEmpty = false := by simpa using (h last (by simp)).2.1
    simp only [List.concat_eq_append, List.reverse_append, List.reverse_cons, List.reverse_nil,
      List.nil_append, List.singleton_append, List.reverse_reverse, hlast, Bool.false_eq_true,
      if_false, List.append_cancel_right_eq]
    refine (List.map_congr_left fun line hline => ?_).trans closed.map_id
    split
    · rename_i rest hreverse
      exact ((h line (by simp [hline])).2.2 rest hreverse).elim
    · rfl

/-- Reading the printed form of a listing gives its lines again, each with its text, its comment,
its kind and its number. -/
theorem splice_render {listing : Listing} (h : ∀ line ∈ listing.lines, line.IsReadable)
    (number : Nat) :
    (({} : Listing).splice (listing.render true false)).lines[number]?.map Line.shown =
      listing.lines[number]?.map Line.shown := by
  have hread : (({} : Listing).splice (listing.render true false)).lines.toList =
      listing.lines.toList.map fun line => { line with instr := .ofText line.text } := by
    rw [splice, toList_render,
      textLines_intercalate (by simpa using fun line hline => (h line hline).isLine),
      lines_foldl_append, List.filterMap_map, ← List.filterMap_eq_map]
    exact List.filterMap_congr fun line hline =>
      (h line (by simpa using hline)).ofListingText?_renderLine
  have hshown : Line.shown ∘ (fun line : Line => { line with instr := .ofText line.text }) =
      Line.shown := by
    funext line
    exact congrArg (·, line.comment, line.kind) (Instr.text_ofText line.text)
  rw [← Array.getElem?_toList, hread, List.getElem?_map, Option.map_map, hshown,
    Array.getElem?_toList]

/-- A text with a slash in it, under a comment with two, and a text that ends beyond the column
where comments start. -/
theorem splice_render_slashes :
    let first : Line := ⟨.alpha "A/B", some "x // y", .string⟩
    let second : Line := ⟨.alpha "FIRST SECOND THIRD", some "z", .string⟩
    let read := ({} : Listing).splice (Listing.render { lines := #[first, second] } true false)
    commentColumn ≤ second.text.length ∧
    read.lines[0]?.map Line.shown = some ("\"A/B\"", some "x // y", .string) ∧
    read.lines[1]?.map Line.shown = some ("\"FIRST SECOND THIRD\"", some "z", .string) := by
  intro first second read
  have hfirst : first.IsReadable :=
    ⟨by decide, by decide, by decide, by decide, by unfold StartsAsText; decide,
      by rintro _ ⟨⟩; decide⟩
  have hsecond : second.IsReadable :=
    ⟨by decide, by decide +kernel, by decide, by decide +kernel, by unfold StartsAsText; decide,
      by rintro _ ⟨⟩; decide⟩
  have hlines : ∀ line ∈ ({ lines := #[first, second] } : Listing).lines, line.IsReadable := by
    simpa using ⟨hfirst, hsecond⟩
  exact ⟨by decide +kernel, splice_render hlines 0, splice_render hlines 1⟩

end Listing

end Keystroke
