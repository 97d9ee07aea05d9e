import Keystroke.Proofs.NamedContainers

/-!
# Text in pieces

A text that is too long for one line is entered in pieces, and nothing of it is lost: what stands
between the outer quotes of its lines is the text, in order. All pieces are full but the last.
-/

namespace Keystroke

theorem flatten_consPiece (c : Char) (pieces : List (List Char)) :
    (consPiece c pieces).flatten = c :: pieces.flatten := by
  cases pieces <;> rfl

/-- The pieces of a text make up the text. -/
theorem flatten_piecesFrom (width room : Nat) (cs : List Char) :
    (piecesFrom width room cs).flatten = cs := by
  induction cs generalizing room with
  | nil => rfl
  | cons c rest ih => cases room <;> simp [piecesFrom, flatten_consPiece, ih]

/-- Pieces after the first one: none is empty, and all but the last are full. -/
structure Packed (width : Nat) (pieces : List (List Char)) : Prop where
  nonempty : [] ∉ pieces
  fits : ∀ piece ∈ pieces, piece.length ≤ width
  full : ∀ piece ∈ pieces.dropLast, piece.length = width

theorem Packed.cons {width : Nat} {piece : List Char} {pieces : List (List Char)}
    (h : Packed width pieces) (hne : piece ≠ []) (hfits : piece.length ≤ width)
    (hfull : pieces ≠ [] → piece.length = width) : Packed width (piece :: pieces) where
  nonempty := by simp [hne.symm, h.nonempty]
  fits := List.forall_mem_cons.mpr ⟨hfits, h.fits⟩
  full := by
    cases pieces with
    | nil => simp
    | cons next rest =>
      rw [List.dropLast_cons_cons]
      exact List.forall_mem_cons.mpr ⟨hfull (List.cons_ne_nil _ _), h.full⟩

/-- The first piece takes what it has room for, and the others are packed. -/
theorem piecesFrom_eq {width : Nat} (hwidth : 0 < width) (room : Nat) (cs : List Char) :
    ∃ first rest, piecesFrom width room cs = first :: rest ∧ first.length ≤ room ∧
      (rest ≠ [] → first.length = room) ∧ Packed width rest := by
  induction cs generalizing room with
  | nil => exact ⟨[], [], rfl, Nat.zero_le _, fun h => absurd rfl h, by simp, by simp, by simp⟩
  | cons c cs ih =>
    cases room with
    | zero =>
      obtain ⟨first, rest, heq, hle, hfull, hpacked⟩ := ih (width - 1)
      refine ⟨[], (c :: first) :: rest, by rw [piecesFrom, heq]; rfl, Nat.le_refl _, fun _ => rfl,
        hpacked.cons (List.cons_ne_nil _ _) ?_ fun hne => ?_⟩
      · rw [List.length_cons]
        omega
      · rw [List.length_cons, hfull hne]
        omega
    | succ room =>
      obtain ⟨first, rest, heq, hle, hfull, hpacked⟩ := ih room
      exact ⟨c :: first, rest, by rw [piecesFrom, heq]; rfl, Nat.succ_le_succ hle,
        fun hne => congrArg (· + 1) (hfull hne), hpacked⟩

theorem packed_piecesFrom {width : Nat} {cs : List Char} (hwidth : 0 < width) (hcs : cs ≠ []) :
    Packed width (piecesFrom width width cs) := by
  obtain ⟨first, rest, heq, hle, hfull, hpacked⟩ := piecesFrom_eq hwidth width cs
  have hflat := flatten_piecesFrom width width cs
  rw [heq] at hflat ⊢
  refine hpacked.cons (fun hempty => ?_) hle hfull
  subst hempty
  -- an empty first piece is not full, so it is the only one, and there is no text
  by_cases hrest : rest = []
  · subst hrest
    exact hcs hflat.symm
  · exact absurd (hfull hrest) (by simp; omega)

theorem join_alphaPieces (text : String) : String.join (alphaPieces text) = text := by
  rw [← String.toList_inj, alphaPieces, String.toList_join, List.flatMap_map]
  simp only [String.toList_ofList]
  rw [List.flatMap_id', flatten_piecesFrom]

theorem alphaPieces_sizes (text : String) :
    (∀ piece ∈ alphaPieces text, piece.length ≤ alphaWidth) ∧
      (∀ piece ∈ (alphaPieces text).dropLast, piece.length = alphaWidth) ∧
      ("" ∈ alphaPieces text ↔ text = "") := by
  by_cases htext : text = ""
  · subst htext
    decide
  · have hpacked : Packed alphaWidth (piecesFrom alphaWidth alphaWidth text.toList) :=
      packed_piecesFrom (by decide) (by simpa using htext)
    rw [alphaPieces, ← List.map_dropLast, List.forall_mem_map, List.forall_mem_map]
    refine ⟨fun cs hcs => ?_, fun cs hcs => ?_, iff_of_false (fun hmem => ?_) htext⟩
    · rw [String.length_ofList]
      exact hpacked.fits cs hcs
    · rw [String.length_ofList]
      exact hpacked.full cs hcs
    · obtain ⟨cs, hcs, hempty⟩ := List.mem_map.mp hmem
      rw [String.ofList_eq_empty_iff.mp hempty] at hcs
      exact hpacked.nonempty hcs

/-- What stands between the first quote of a text and its last. -/
def betweenQuotes (text : String) : String :=
  let inner := (text.toList.dropWhile (· != '"')).drop 1
  String.ofList ((inner.reverse.dropWhile (· != '"')).drop 1).reverse

theorem betweenQuotes_quoted {before : String} (h : '"' ∉ before.toList) (piece : String) :
    betweenQuotes (before ++ "\"" ++ piece ++ "\"") = piece := by
  have hdrop : ∀ rest : List Char, (before.toList ++ '"' :: rest).dropWhile (· != '"') =
      '"' :: rest := by
    intro rest
    rw [List.dropWhile_append_of_pos fun c hc => ?_]
    · simp
    · exact bne_iff_ne.mpr fun heq => h (heq ▸ hc)
  simp [betweenQuotes, hdrop]

/-- A text is entered in lines of at most 15 characters, and nothing of it is lost. -/
theorem alpha_loses_nothing (text : String) (s : Emitter) :
    ∃ (listing : Listing) (lines : List Line) (first : String) (rest : List String),
      (Emit.alpha text).run s = .ok ((), { s with listing }) ∧
        listing.lines.toList = s.listing.lines.toList ++ lines ∧
        (∀ line ∈ lines, line.kind = .string) ∧
        lines.map Line.text = ("\"" ++ first ++ "\"") :: rest.map ("├\"" ++ · ++ "\"") ∧
        lines.map (fun line => betweenQuotes line.text) = first :: rest ∧
        String.join (first :: rest) = text ∧
        (∀ piece ∈ first :: rest, piece.length ≤ 15) ∧
        (∀ piece ∈ (first :: rest).dropLast, piece.length = 15) ∧
        ("" ∈ first :: rest ↔ text = "") ∧ (text = "" → rest = []) := by
  obtain ⟨hfits, hfull, hempty⟩ := alphaPieces_sizes text
  have hjoin := join_alphaPieces text
  cases hpieces : alphaPieces text with
  | nil =>
    rw [hpieces] at hjoin
    subst hjoin
    exact absurd hpieces (by decide)
  | cons first rest =>
    rw [hpieces] at hfits hfull hempty hjoin
    have hlines : alphaLines text = .alpha first :: rest.map .alphaAppend := by
      rw [alphaLines, hpieces]
    refine ⟨_, (alphaLines text).map (⟨·, none, .string⟩), first, rest, rfl, Listing.lines_emitAll,
      List.forall_mem_map.mpr fun _ _ => rfl, ?_, ?_, hjoin, hfits, hfull, hempty, fun htext => ?_⟩
    · rw [hlines]
      simp [Line.text, Instr.text, Instr.appendMark]
    · have hfirst : betweenQuotes ("\"" ++ first ++ "\"") = first :=
        betweenQuotes_quoted (show '"' ∉ "".toList by decide) first
      have hrest : ∀ piece : String, betweenQuotes (Instr.alphaAppend piece).text = piece :=
        betweenQuotes_quoted (by decide)
      rw [hlines, List.map_cons, List.map_cons, List.map_map, List.map_map]
      exact congrArg₂ List.cons hfirst (List.map_id'' hrest rest)
    · subst htext
      cases hpieces
      rfl

end Keystroke
