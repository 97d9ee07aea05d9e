import Keystroke.Python.Token.Literal
import Keystroke.Text.Identifier

/-!
# Cutting a source text into tokens

Lines are joined inside brackets and after a backslash. The indentation of a line that holds a
token is compared with the lines around it, and gives the tokens that open and close blocks. The
tokens end at the end of the text or at the first place that cannot be read.
-/

namespace Keystroke.Python

/-! ### Indentation -/

/-- The blank space before a line: its width with tab stops, and its number of characters. -/
structure Indentation where
  column : Nat
  characters : Nat
deriving DecidableEq

namespace Indentation

/-- No blank space. -/
def none : Indentation := ⟨0, 0⟩

/-- The indentation after one more space. -/
def addSpace (indentation : Indentation) : Indentation :=
  ⟨indentation.column + 1, indentation.characters + 1⟩

/-- The indentation after one more tab, which goes to the next multiple of two columns. -/
def addTab (indentation : Indentation) : Indentation :=
  ⟨(indentation.column / 2 + 1) * 2, indentation.characters + 1⟩

/-- How two indentations compare, if both measures agree on it. -/
def compare? (a b : Indentation) : Option Ordering :=
  let byColumn := compare a.column b.column
  if byColumn = compare a.characters b.characters then some byColumn else Option.none

end Indentation

/-- The place after a line end, if one comes next. -/
def afterLineEnd? (cursor : Cursor) : Option Cursor :=
  match cursor.rest with
  | '\r' :: '\n' :: _ => some (cursor.skip 2)
  | '\r' :: _ => some cursor.next
  | '\n' :: _ => some cursor.next
  | _ => none

/-- What blank space leads to. -/
inductive BlankEnd where
  | token
  /-- A backslash that does not join two lines. -/
  | strayBackslash
  /-- A backslash that joins the last line to nothing. -/
  | lineMissing
deriving DecidableEq

/-- The blank space that comes next, backslashes at line ends included: its indentation and what it
leads to. If a backslash joins lines, the blank space before the first one settles the indentation,
unless there is none there. -/
def skipBlanksFrom : List Char → Nat → Bool → Indentation → Indentation × BlankEnd × Cursor
  | ' ' :: rest, offset, settled, indentation =>
    skipBlanksFrom rest (offset + 1) settled
      (bif settled then indentation else indentation.addSpace)
  | '\t' :: rest, offset, settled, indentation =>
    skipBlanksFrom rest (offset + 1) settled
      (bif settled then indentation else indentation.addTab)
  | '\x0c' :: rest, offset, settled, indentation =>
    skipBlanksFrom rest (offset + 1) settled
      (bif settled then indentation else .none)
  | ['\\', '\r', '\n'], offset, _, indentation => (indentation, .lineMissing, ⟨[], offset + 3⟩)
  | ['\\', '\r'], offset, _, indentation => (indentation, .lineMissing, ⟨[], offset + 2⟩)
  | ['\\', '\n'], offset, _, indentation => (indentation, .lineMissing, ⟨[], offset + 2⟩)
  | '\\' :: '\r' :: '\n' :: rest, offset, _, indentation =>
    skipBlanksFrom rest (offset + 3) (indentation ≠ .none) indentation
  | '\\' :: '\r' :: rest, offset, _, indentation =>
    skipBlanksFrom rest (offset + 2) (indentation ≠ .none) indentation
  | '\\' :: '\n' :: rest, offset, _, indentation =>
    skipBlanksFrom rest (offset + 2) (indentation ≠ .none) indentation
  | '\\' :: rest, offset, _, indentation =>
    (indentation, .strayBackslash, ⟨'\\' :: rest, offset⟩)
  | rest, offset, _, indentation => (indentation, .token, ⟨rest, offset⟩)

/-- The levels that a line closes to come back to `new`, and the levels that stay open. There are
none if `new` is not the indentation of an open level. -/
def closedLevels? (new : Indentation) : List Indentation → Option (Nat × List Indentation)
  | [] => none
  | _ :: outer =>
    match (outer.head?.getD .none).compare? new with
    | some .eq => some (1, outer)
    | some .gt => (closedLevels? new outer).map fun (count, outer) => (count + 1, outer)
    | _ => none

/-! ### The state between two tokens -/

/-- The state between two tokens. -/
structure Scanner where
  cursor : Cursor
  /-- How many brackets are open. -/
  nesting : Nat := 0
  /-- The indentations of the open blocks, innermost first. -/
  levels : List Indentation := []
  /-- Whether no token of the current line has been read. -/
  atLineStart : Bool := true
  /-- The first line break skipped since the last token, inside one bracket. -/
  lineBreak : Option Nat := none
  /-- The formatted literals that are open, innermost first. -/
  formats : List FormatContext := []

namespace Scanner

def token (scanner : Scanner) (kind : TokenKind) (stop : Nat) : Token :=
  ⟨kind, scanner.cursor.offset, stop, scanner.lineBreak⟩

/-- The state after a token. -/
def past (scanner : Scanner) (after : Cursor) : Scanner :=
  { scanner with cursor := after, atLineStart := false, lineBreak := none }

def emit (scanner : Scanner) (kind : TokenKind) (after : Cursor) : List Token × Option Scanner :=
  match kind with
  | .invalid _ => ([scanner.token kind after.offset], none)
  | _ => ([scanner.token kind after.offset], some (scanner.past after))

/-- A fault here, after which nothing is read. -/
def fail (scanner : Scanner) : List Token × Option Scanner :=
  ([scanner.token (.invalid scanner.cursor.offset) scanner.cursor.offset], none)

/-- The tokens at the end of the text. -/
def finish (scanner : Scanner) : List Token × Option Scanner :=
  if scanner.nesting ≠ 0 then
    scanner.fail
  else
    let here (kind : TokenKind) := scanner.token kind scanner.cursor.offset
    let lineEnd := if scanner.atLineStart then [] else [here .newline]
    (lineEnd ++ scanner.levels.map (fun _ => here .dedent) ++ [here .endOfInput], none)

/-- The state after the blank space before a token, with the tokens that open or close blocks, or a
fault. -/
def openLine (scanner : Scanner) (indentation : Indentation) (after : Cursor) :
    Option (List Token × Scanner) :=
  let moved := { scanner with cursor := after }
  match after.rest with
  | [] => some ([], moved)
  | c :: _ =>
    if isLineEnd c || c = '#' then
      some ([], moved)
    else
      match (scanner.levels.head?.getD .none).compare? indentation with
      | some .eq => some ([], moved)
      | some .lt =>
        some ([scanner.token .indent after.offset],
          { moved with levels := indentation :: scanner.levels })
      | some .gt =>
        (closedLevels? indentation scanner.levels).map fun (count, levels) =>
          (List.replicate count (moved.token .dedent after.offset), { moved with levels })
      | Option.none => Option.none

/-- The state after a line end: a token outside brackets on a line with tokens, nothing else. -/
def lineEnd (scanner : Scanner) (after : Cursor) : List Token × Option Scanner :=
  if scanner.nesting = 0 && !scanner.atLineStart then
    ([scanner.token .newline after.offset], some { scanner.past after with atLineStart := true })
  else
    let lineBreak :=
      if scanner.nesting = 1 then scanner.lineBreak.or (some scanner.cursor.offset) else none
    ([], some { scanner with cursor := after, lineBreak })

/-- The first symbol of the language that comes next. -/
def symbolHere? (scanner : Scanner) : Option String :=
  symbols.find? fun text => scanner.cursor.startsWith text.toList

/-- The state after a symbol. -/
def symbolToken (scanner : Scanner) (text : String) : List Token × Option Scanner :=
  let plain (text : String) (scanner : Scanner) :=
    scanner.emit (.symbol text) (scanner.cursor.skip text.length)
  let closing (scanner : Scanner) :=
    plain text { scanner with nesting := scanner.nesting - 1 }
  match text, scanner.formats with
  | "(", _ | "[", _ | "\x7b", _ => plain text { scanner with nesting := scanner.nesting + 1 }
  | ")", _ | "]", _ => closing scanner
  | "\x7d", context :: outer =>
    if context.nesting = scanner.nesting then scanner.fail
    else closing { scanner with formats := context.endSpec scanner.nesting :: outer }
  | "\x7d", [] => closing scanner
  | ":", context :: outer | ":=", context :: outer =>
    match context.startSpec? scanner.nesting with
    | some context => plain ":" { scanner with formats := context :: outer }
    | none => plain text scanner
  | _, _ => plain text scanner

def openFormat (scanner : Scanner) (letters : List Char) (kind : LiteralPrefix) (quote : Char) :
    List Token × Option Scanner :=
  let atQuote := scanner.cursor.skip letters.length
  let isTriple := atTripleQuote quote atQuote.rest
  let context : FormatContext := ⟨quote, isTriple, kind.isRaw, scanner.nesting, 0⟩
  { scanner with formats := context :: scanner.formats }.emit
    (.formatStart (kind.kind == LiteralKind.template)) (atQuote.skip (quoteCount isTriple))

/-- The token for a word, which has at least one character. -/
def word (scanner : Scanner) : List Token × Option Scanner :=
  let taken := scanner.cursor.takeWhile isIdentifierContinue
  let text := String.ofList taken.1
  have hletters : ∀ c ∈ text.toList, isIdentifierContinue c = true := by
    rw [String.toList_ofList]
    exact scanner.cursor.forall_takeWhile isIdentifierContinue
  if hempty : text = "" then scanner.fail
  else
    scanner.emit (if keywords.contains text then .keyword text else .name ⟨text, hempty, hletters⟩)
      taken.2

/-- The token that starts with the next character. -/
def visible (scanner : Scanner) : List Token × Option Scanner :=
  match scanner.cursor.rest with
  | [] => scanner.finish
  | c :: rest =>
    if c = '#' then
      ([], some { scanner with cursor := (scanner.cursor.takeWhile fun c => !isLineEnd c).2 })
    else
      match afterLineEnd? scanner.cursor with
      | some after => scanner.lineEnd after
      | none =>
        match literalStart? (c :: rest) with
        | some (letters, kind, quote) =>
          if kind.kind = .format || kind.kind = .template then
            scanner.openFormat letters kind quote
          else
            let (token, after) := scanLiteral scanner.cursor letters kind quote
            scanner.emit token after
        | none =>
          if isIdentifierStart c then
            scanner.word
          else if atNumber scanner.cursor.rest then
            let (token, after) := scanNumber scanner.cursor
            scanner.emit token after
          else
            match scanner.symbolHere? with
            | some text => scanner.symbolToken text
            | none => scanner.fail

/-- The next tokens outside the text of formatted literals. -/
def step (scanner : Scanner) : List Token × Option Scanner :=
  match skipBlanksFrom scanner.cursor.rest scanner.cursor.offset false .none with
  | (_, .strayBackslash, after) => { scanner with cursor := after }.fail
  | (_, .lineMissing, _) => scanner.fail
  | (indentation, .token, after) =>
    if scanner.atLineStart then
      match scanner.openLine indentation after with
      | none => scanner.fail
      | some (blocks, scanner) =>
        let (tokens, next) := scanner.visible
        (blocks ++ tokens, next)
    else
      { scanner with cursor := after }.visible

/-- The next tokens. The text of a formatted literal is read as such, all else as code. -/
def next (scanner : Scanner) : List Token × Option Scanner :=
  match scanner.formats with
  | [] => scanner.step
  | context :: outer =>
    if context.inField scanner.nesting then
      scanner.step
    else
      match scanFormatText? context scanner.nesting scanner.cursor with
      | some (.formatEnd, after) => { scanner with formats := outer }.emit .formatEnd after
      | some (kind, after) => scanner.emit kind after
      | none => scanner.step

/-- The tokens from a state on, at most `steps` times, after those already read in reverse. -/
def run : Nat → Scanner → List Token → List Token
  | 0, _, taken => taken.reverse
  | steps + 1, scanner, taken =>
    let (tokens, next) := scanner.next
    let taken := tokens.reverse ++ taken
    match next with
    | some scanner => run steps scanner taken
    | none => taken.reverse

end Scanner

/-- The mark that may stand before a text. -/
def byteOrderMark : Char := Char.ofNat 0xFEFF

/-- The tokens of a text. The last one is the end of the input or a fault. Each step but the last
reads at least one character. -/
def tokens (text : List Char) : List Token :=
  let start : Cursor := ⟨text, 0⟩
  let cursor := if text.head? == some byteOrderMark then start.next else start
  Scanner.run (text.length + 1) { cursor } []

end Keystroke.Python
