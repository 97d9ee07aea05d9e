import Keystroke.Proofs.NamedTrees

/-!
# Comments behind literals

A comment starts at the first number sign outside literals. The search for it takes the quotes of a
line one by one, so three quotes are an empty literal to it and the start of another. That makes no
difference unless a literal between three quotes has a quote of the same kind in it.
-/

namespace Keystroke

open Python (isQuote literalContent? quoteCount)
open Script (FunctionHeader checkHeader)

/-! ### What the search passes over -/

/-- Text between two quotes in which a quote of that kind stands after a backslash only. -/
inductive Masked (quote : Char) : List Char → Prop where
  | nil : Masked quote []
  | escape {c : Char} {rest : List Char} : Masked quote rest → Masked quote ('\\' :: c :: rest)
  | plain {c : Char} {rest : List Char} : c ≠ '\\' → c ≠ quote → Masked quote rest →
      Masked quote (c :: rest)

/-- Text in which every quote is closed by the next one of its kind, without a number sign outside
quotes. -/
inductive Quoted : List Char → Prop where
  | nil : Quoted []
  | plain {c : Char} {rest : List Char} : c ≠ '#' → isQuote c = false → Quoted rest →
      Quoted (c :: rest)
  | quotes {quote : Char} {content rest : List Char} : isQuote quote = true →
      Masked quote content → Quoted rest → Quoted (quote :: (content ++ quote :: rest))

/-- The same after an opening quote. -/
def ClosedBy (quote : Char) (cs : List Char) : Prop :=
  isQuote quote = true →
    ∃ content rest, cs = content ++ quote :: rest ∧ Masked quote content ∧ Quoted rest

/-- Text that closes all quotes when the search comes to it in a given state. -/
def QuoteState.Passes : QuoteState → List Char → Prop
  | .outside, cs => Quoted cs
  | .inside quote, cs => ClosedBy quote cs
  | .escaped quote, cs => ∃ c rest, cs = c :: rest ∧ ClosedBy quote rest

variable {quote : Char} {content code comment found cs : List Char} {state : QuoteState}

theorem ne_of_isQuote {c : Char} (h : isQuote quote = true)
    (hc : isQuote c = false) : quote ≠ c := by
  rintro rfl
  exact Bool.false_ne_true (hc.symm.trans h)

theorem Masked.afterNumberSign?_eq (h : Masked quote content) (rest : List Char) :
    afterNumberSign? (.inside quote) (content ++ rest) = afterNumberSign? (.inside quote) rest := by
  induction h with
  | nil => rfl
  | escape _ ih => exact ih
  | plain hslash hquote _ ih =>
    rw [List.cons_append, afterNumberSign?, if_neg hslash, if_neg hquote]
    exact ih

theorem Quoted.afterNumberSign?_eq (h : Quoted code) (rest : List Char) :
    afterNumberSign? .outside (code ++ rest) = afterNumberSign? .outside rest := by
  induction h with
  | nil => rfl
  | plain hsign hquote _ ih =>
    rw [List.cons_append, afterNumberSign?, if_neg hsign, ← isQuote, hquote]
    exact ih
  | quotes hquote hmasked _ ih =>
    rw [List.cons_append, afterNumberSign?, if_neg (ne_of_isQuote hquote rfl), ← isQuote,
      if_pos hquote, List.append_assoc, hmasked.afterNumberSign?_eq, List.cons_append,
      afterNumberSign?, if_neg (ne_of_isQuote hquote rfl), if_pos rfl, ih]

/-- One step of the search, unless it ends. -/
theorem afterNumberSign?_cons {c : Char} (h : state = .outside → c ≠ '#') :
    ∃ next : QuoteState, (∀ cs, afterNumberSign? state (c :: cs) = afterNumberSign? next cs) ∧
      ∀ cs, next.Passes cs → state.Passes (c :: cs) := by
  cases state with
  | outside =>
    cases hquote : isQuote c with
    | true =>
      refine ⟨.inside c, fun cs => ?_, fun cs hpasses => ?_⟩
      · rw [afterNumberSign?, if_neg (h rfl), ← isQuote, if_pos hquote]
      · obtain ⟨content, rest, rfl, hmasked, hrest⟩ := hpasses hquote
        exact .quotes hquote hmasked hrest
    | false =>
      refine ⟨.outside, fun cs => ?_, fun cs hpasses => .plain (h rfl) hquote hpasses⟩
      rw [afterNumberSign?, if_neg (h rfl), ← isQuote, hquote]
      rfl
  | inside quote =>
    by_cases hslash : c = '\\'
    · refine ⟨.escaped quote, fun cs => if_pos hslash, ?_⟩
      rintro _ ⟨d, cs, rfl, hpasses⟩ hquote
      obtain ⟨content, rest, rfl, hmasked, hrest⟩ := hpasses hquote
      exact ⟨c :: d :: content, rest, rfl, hslash ▸ .escape hmasked, hrest⟩
    by_cases hclose : c = quote
    · refine ⟨.outside, fun cs => (if_neg hslash).trans (if_pos hclose), fun cs hpasses _ => ?_⟩
      exact ⟨[], cs, by rw [hclose]; rfl, .nil, hpasses⟩
    · refine ⟨.inside quote, fun cs => (if_neg hslash).trans (if_neg hclose),
        fun cs hpasses hquote => ?_⟩
      obtain ⟨content, rest, rfl, hmasked, hrest⟩ := hpasses hquote
      exact ⟨c :: content, rest, rfl, .plain hslash hclose hmasked, hrest⟩
  | escaped quote => exact ⟨.inside quote, fun cs => rfl, fun cs hpasses => ⟨c, cs, rfl, hpasses⟩⟩

/-- The search ends at a number sign behind text that closes all quotes, or goes on to the end of a
text that could be completed to such. -/
theorem afterNumberSign?_cases (state : QuoteState) (cs : List Char) :
    (∃ before found, cs = before ++ '#' :: found ∧ state.Passes before ∧
        afterNumberSign? state cs = some found) ∨
      (∃ rest, state.Passes (cs ++ rest)) ∧ afterNumberSign? state cs = none := by
  induction cs generalizing state with
  | nil =>
    have hinside : ∀ quote, ClosedBy quote [quote] :=
      fun quote _ => ⟨[], [], rfl, .nil, .nil⟩
    right
    cases state with
    | outside => exact ⟨⟨[], .nil⟩, rfl⟩
    | inside quote => exact ⟨⟨_, hinside quote⟩, rfl⟩
    | escaped quote => exact ⟨⟨[quote, quote], _, _, rfl, hinside quote⟩, rfl⟩
  | cons c rest ih =>
    by_cases hstart : state = .outside ∧ c = '#'
    · obtain ⟨rfl, rfl⟩ := hstart
      exact .inl ⟨[], rest, rfl, .nil, rfl⟩
    obtain ⟨next, hnext, hpasses⟩ := afterNumberSign?_cons fun hout hc => hstart ⟨hout, hc⟩
    rw [hnext]
    rcases ih next with ⟨before, found, rfl, hbefore, hfound⟩ | ⟨⟨more, hmore⟩, hnone⟩
    · exact .inl ⟨c :: before, found, rfl, hpasses before hbefore, hfound⟩
    · exact .inr ⟨⟨more, hpasses _ hmore⟩, hnone⟩

theorem count_trimChars (cs : List Char) : (trimChars cs).count '#' = cs.count '#' := by
  have hdrop : ∀ cs : List Char, (cs.dropWhile isBlank).count '#' = cs.count '#' := by
    intro cs
    have hblank : '#' ∉ cs.takeWhile isBlank := fun hmem =>
      absurd (List.all_eq_true.mp List.all_takeWhile _ hmem) (by decide)
    conv_rhs => rw [← List.takeWhile_append_dropWhile (p := isBlank) (l := cs), List.count_append,
      List.count_eq_zero.mpr hblank, Nat.zero_add]
  rw [trimChars, List.count_reverse, hdrop, List.count_reverse, hdrop]

/-- Of two texts after number signs in one text, the longer one has more of them. -/
theorem eq_nil_of_count {more : List Char} (h : '#' :: comment = more ++ '#' :: found)
    (hcount : found.count '#' = comment.count '#') : more = [] := by
  cases more with
  | nil => rfl
  | cons c more =>
    rw [List.cons_append, List.cons_eq_cons] at h
    rw [h.2, List.count_append, List.count_cons_self] at hcount
    omega

/-- A comment is found exactly if all quotes in front of it are closed, one by one. -/
theorem lineComment?_eq_some_iff :
    lineComment? (.ofList (code ++ '#' :: comment)) = some (.ofList (trimChars comment)) ↔
      Quoted code := by
  rw [lineComment?, String.toList_ofList, Option.map_eq_some_iff]
  refine ⟨?_, fun hcode => ⟨comment, hcode.afterNumberSign?_eq _, rfl⟩⟩
  rintro ⟨found, hfound, htrim⟩
  have hcount : found.count '#' = comment.count '#' := by
    rw [← count_trimChars found, String.ofList_inj.mp htrim, count_trimChars]
  rcases afterNumberSign?_cases .outside (code ++ '#' :: comment) with
    ⟨before, _, hsplit, hbefore, hsome⟩ | ⟨-, hnone⟩
  · obtain rfl := Option.some.inj (hsome.symm.trans hfound)
    rcases List.append_eq_append_iff.mp hsplit with ⟨more, rfl, hmore⟩ | ⟨more, rfl, hmore⟩
    · rwa [eq_nil_of_count hmore hcount, List.append_nil] at hbefore
    · rwa [eq_nil_of_count hmore hcount.symm, List.append_nil]
  · cases hnone.symm.trans hfound

theorem lineComment?_eq_none_iff :
    lineComment? (.ofList code) = none ↔ ∃ rest, Quoted (code ++ rest) := by
  rw [lineComment?, String.toList_ofList, Option.map_eq_none_iff]
  rcases afterNumberSign?_cases .outside code with
    ⟨before, found, rfl, hbefore, hsome⟩ | ⟨hrest, hnone⟩
  · refine iff_of_false (by rw [hsome]; nofun) ?_
    rintro ⟨rest, hrest⟩
    have hnone := hrest.afterNumberSign?_eq []
    rw [List.append_nil, List.append_assoc, hbefore.afterNumberSign?_eq] at hnone
    cases hnone
  · exact iff_of_true hnone hrest

/-! ### Lines of tokens -/

/-- A literal on a line, without the letters in front of it. The lexer closes it where it ends. -/
structure LineLiteral where
  quote : Char
  isTriple : Bool
  content : List Char
  isQuote : isQuote quote = true
  closes : literalContent? quote isTriple
    (content ++ List.replicate (quoteCount isTriple) quote) [] = some (content.reverse, [])

/-- A part of a line in front of the comment: a literal, or text without quotes. -/
inductive LinePart where
  | literal (literal : LineLiteral)
  | plain (text : List Char) (sign : '#' ∉ text) (double : '"' ∉ text) (single : '\'' ∉ text)

def LinePart.text : LinePart → List Char
  | literal ⟨quote, isTriple, content, _, _⟩ =>
    let quotes := List.replicate (quoteCount isTriple) quote
    quotes ++ (content ++ quotes)
  | plain text _ _ _ => text

theorem Quoted.append (h : Quoted code) (hrest : Quoted cs) : Quoted (code ++ cs) := by
  induction h with
  | nil => exact hrest
  | plain hsign hquote _ ih => exact .plain hsign hquote ih
  | quotes hquote hmasked _ ih =>
    rw [List.cons_append, List.append_assoc]
    exact .quotes hquote hmasked ih

theorem quoted_of_not_mem (hsign : '#' ∉ code) (hdouble : '"' ∉ code) (hsingle : '\'' ∉ code) :
    Quoted code := by
  induction code with
  | nil => exact .nil
  | cons c rest ih =>
    rw [List.mem_cons, not_or] at hsign hdouble hsingle
    refine .plain (Ne.symm hsign.1) ?_ (ih hsign.2 hdouble.2 hsingle.2)
    simp [isQuote, Ne.symm hdouble.1, Ne.symm hsingle.1]

/-- A literal between two quotes ends at the first one of its kind. -/
theorem masked_of_literalContent? {taken reversed rest : List Char} (hquote : isQuote quote = true)
    (h : literalContent? quote false cs taken = some (reversed, rest)) :
    ∃ content, reversed = content.reverse ++ taken ∧ Masked quote content := by
  fun_induction literalContent? quote false cs taken with
  | case1 | case8 => cases h
  | case2 _ _ ih =>
    obtain ⟨content, rfl, hmasked⟩ := ih h
    refine ⟨'\\' :: '\r' :: '\n' :: content, by simp, .escape (.plain (by decide) ?_ hmasked)⟩
    exact (ne_of_isQuote hquote rfl).symm
  | case3 c _ _ _ ih =>
    obtain ⟨content, rfl, hmasked⟩ := ih h
    exact ⟨'\\' :: c :: content, by simp, .escape hmasked⟩
  | case4 | case5 | case6 => contradiction
  | case7 =>
    cases h
    exact ⟨[], rfl, .nil⟩
  | case9 c rest taken _ hslash hne _ ih =>
    obtain ⟨content, rfl, hmasked⟩ := ih h
    refine ⟨c :: content, by simp, .plain ?_ hne hmasked⟩
    -- a backslash at the end of the text closes nothing
    rintro rfl
    cases rest with
    | nil => cases h
    | cons d rest => exact hslash d rest rfl rfl

theorem LineLiteral.masked (literal : LineLiteral) (h : literal.isTriple = false) :
    Masked literal.quote literal.content := by
  obtain ⟨quote, isTriple, content, hquote, hcloses⟩ := literal
  subst h
  obtain ⟨found, hfound, hmasked⟩ := masked_of_literalContent? hquote hcloses
  rw [List.append_nil, List.reverse_inj] at hfound
  exact hfound ▸ hmasked

theorem LineLiteral.quoted (literal : LineLiteral) (h : Masked literal.quote literal.content) :
    Quoted (LinePart.literal literal).text := by
  obtain ⟨quote, isTriple, content, hquote, hcloses⟩ := literal
  cases isTriple with
  | false => exact .quotes hquote h .nil
  | true =>
    -- three quotes are a pair with nothing in it, and one that opens or closes
    have hclosed : Quoted (quote :: (content ++ quote :: [quote, quote])) :=
      .quotes hquote h (.quotes hquote .nil .nil)
    exact .quotes hquote .nil hclosed

theorem quoted_parts {parts : List LinePart} (h : ∀ literal, .literal literal ∈ parts →
    literal.isTriple = true → Masked literal.quote literal.content) :
    Quoted (parts.flatMap LinePart.text) := by
  induction parts with
  | nil => exact .nil
  | cons part rest ih =>
    rw [List.flatMap_cons]
    refine .append ?_ (ih fun literal hmem => h literal (List.mem_cons_of_mem _ hmem))
    cases part with
    | literal literal =>
      refine literal.quoted ?_
      cases htriple : literal.isTriple with
      | true => exact h literal List.mem_cons_self htriple
      | false => exact literal.masked htriple
    | plain _ hsign hdouble hsingle => exact quoted_of_not_mem hsign hdouble hsingle

/-! ### Comments of functions -/

theorem comment_checkHeader {source : SourceText} {start : Position}
    {header : Python.FunctionHeader} {checked : FunctionHeader}
    (h : checkHeader source start header = .ok checked) :
    checked.comment = lineComment? (source.lineText start.line.toNat) := by
  unfold checkHeader Script.outside at h
  split_ifs at h
  obtain ⟨params, -, h⟩ := bind_eq_ok.mp h
  cases h
  rfl

theorem occursIn_iff {pattern : List Char} : occursIn pattern cs = true ↔ pattern <:+: cs := by
  induction cs with
  | nil => rw [occursIn, List.isEmpty_iff, List.infix_nil]
  | cons c rest ih =>
    rw [occursIn, Bool.or_eq_true, ih, List.isPrefixOf_iff_prefix, List.infix_cons_iff]

/-- The quotes of the code on a line are closed, one by one, before its comment. Without a comment
the last one may be left open. -/
def ClosesQuotes (code : List Char) : Option (List Char) → Prop
  | some _ => Quoted code
  | none => ∃ rest, Quoted (code ++ rest)

/-- The comment on the line of a function is read as it stands there exactly if the quotes in front
of it are closed one by one. So it is unless a literal between three quotes has one of them in it,
and then the function is exported as its comment asks. -/
theorem comment_of_function {source : SourceText} {start : Position}
    {header : Python.FunctionHeader}
    {checked : FunctionHeader} {parts : List LinePart} {comment : Option (List Char)}
    (hcheck : checkHeader source start header = .ok checked)
    (hline : source.lineText start.line.toNat =
      .ofList (parts.flatMap LinePart.text ++ comment.elim [] ('#' :: ·))) :
    (checked.comment = comment.map (fun text => .ofList (trimChars text)) ↔
        ClosesQuotes (parts.flatMap LinePart.text) comment) ∧
      ((∀ literal, .literal literal ∈ parts → literal.isTriple = true →
          Masked literal.quote literal.content) →
        checked.comment = comment.map (fun text => .ofList (trimChars text)) ∧
          (checked.isExported = true ↔ ∃ text, comment = some text ∧
            "rpn:".toList <:+: trimChars text ∧ "export".toList <:+: trimChars text)) := by
  have hread : checked.comment = comment.map (fun text => .ofList (trimChars text)) ↔
      ClosesQuotes (parts.flatMap LinePart.text) comment := by
    rw [comment_checkHeader hcheck, hline]
    cases comment with
    | none =>
      rw [Option.elim_none, List.append_nil]
      exact lineComment?_eq_none_iff
    | some text => exact lineComment?_eq_some_iff
  refine ⟨hread, fun hmasked => ?_⟩
  have hcloses : ClosesQuotes (parts.flatMap LinePart.text) comment := by
    cases comment with
    | none => exact ⟨[], by rw [List.append_nil]; exact quoted_parts hmasked⟩
    | some text => exact quoted_parts hmasked
  have hfound := hread.mpr hcloses
  refine ⟨hfound, ?_⟩
  rw [FunctionHeader.isExported, hfound]
  cases comment with
  | none => simp
  | some text => simp [asksForExport, occursIn_iff]

/-- A line on which the text between three quotes has one of them in it. -/
def quotedLine : List LinePart :=
  [.plain "def b(): ".toList (by decide) (by decide) (by decide),
    .literal ⟨'\'', true, "b's doc".toList, rfl, by decide +kernel⟩,
    .plain "  ".toList (by decide) (by decide) (by decide)]

/-- The comment on this line asks for a global label, and is not read. -/
theorem comment_of_function_quotedLine : ∃ (source : SourceText) (header : Python.FunctionHeader)
    (checked : FunctionHeader), checkHeader source (source.position 0) header = .ok checked ∧
      source.lineText 1 = .ofList (quotedLine.flatMap LinePart.text ++ "# rpn: export".toList) ∧
      asksForExport "rpn: export" = true ∧ checked.isExported = false ∧
      ¬ Quoted (quotedLine.flatMap LinePart.text) := by
  let source := SourceText.ofString "def b(): '''b's doc'''  # rpn: export"
  let header : Python.FunctionHeader :=
    ⟨false, false, 4, ⟨"b", by decide, by simp [isIdentifierContinue]; decide⟩, ⟨[], false, false⟩⟩
  obtain ⟨checked, hcheck⟩ : ∃ checked,
      checkHeader source (source.position 0) header = .ok checked := ⟨_, rfl⟩
  have hline : source.lineText (source.position 0).line.toNat =
      .ofList
      (quotedLine.flatMap LinePart.text ++ (some " rpn: export".toList).elim [] ('#' :: ·)) := by
    decide +kernel
  have hcomment : checked.comment = none := by
    rw [comment_checkHeader hcheck]
    decide +kernel
  refine ⟨source, header, checked, hcheck, hline, by decide +kernel, ?_, fun hquoted => ?_⟩
  · rw [FunctionHeader.isExported, hcomment]
    rfl
  · have hread := (comment_of_function hcheck hline).1.mpr hquoted
    rw [hcomment] at hread
    cases hread

end Keystroke
