import Keystroke.Python.Token.Escape

/-!
# Text literals

A literal has an optional prefix of letters and is closed by the quote, or the three quotes, that
opened it. A backslash keeps the character after it from closing the literal, in raw literals too.
-/

namespace Keystroke.Python

/-- What the prefix of a literal makes of it. -/
inductive LiteralKind where
  | text
  | bytes
  | format
  | template
deriving DecidableEq

/-- The letters before a literal, read without regard to case. -/
structure LiteralPrefix where
  kind : LiteralKind
  isRaw : Bool

/-- The meaning of the letters before a quote, if they can stand there. -/
def literalPrefix? (letters : List Char) : Option LiteralPrefix :=
  match letters.map Char.toLower with
  | [] => some ⟨.text, false⟩
  | ['r'] => some ⟨.text, true⟩
  | ['u'] => some ⟨.text, false⟩
  | ['b'] => some ⟨.bytes, false⟩
  | ['f'] => some ⟨.format, false⟩
  | ['t'] => some ⟨.template, false⟩
  | ['r', 'b'] | ['b', 'r'] => some ⟨.bytes, true⟩
  | ['r', 'f'] | ['f', 'r'] => some ⟨.format, true⟩
  | ['r', 't'] | ['t', 'r'] => some ⟨.template, true⟩
  | _ => none

/-- Whether a character opens a literal. -/
def isQuote (c : Char) : Bool :=
  c = '"' || c = '\''

def isLineEnd (c : Char) : Bool :=
  c = '\n' || c = '\r'

def isBrace (c : Char) : Bool :=
  c = '\x7b' || c = '\x7d'

/-- The letters and the quote with which a literal starts here, if one does. -/
def literalStart? (cs : List Char) : Option (List Char × LiteralPrefix × Char) :=
  let found (letters : List Char) (quote : Char) :=
    if isQuote quote then
      (literalPrefix? letters).map fun kind => (letters, kind, quote)
    else
      none
  match cs with
  | [] => none
  | [a] => found [] a
  | [a, b] => (found [] a).or (found [a] b)
  | a :: b :: c :: _ => ((found [] a).or (found [a] b)).or (found [a, b] c)

/-- The content of a literal up to its closing quotes, in reverse and before `taken`, and what
follows them. There is none if the literal is not closed. -/
def literalContent? (quote : Char) (isTriple : Bool) :
    List Char → List Char → Option (List Char × List Char)
  | [], _ => none
  | '\\' :: '\r' :: '\n' :: rest, taken =>
    literalContent? quote isTriple rest ('\n' :: '\r' :: '\\' :: taken)
  | '\\' :: c :: rest, taken => literalContent? quote isTriple rest (c :: '\\' :: taken)
  | c :: rest, taken =>
    if c = quote then
      if isTriple then
        match rest with
        | d :: e :: after =>
          if d = quote && e = quote then some (taken, after)
          else literalContent? quote isTriple rest (c :: taken)
        | _ => literalContent? quote isTriple rest (c :: taken)
      else
        some (taken, rest)
    else if isLineEnd c && !isTriple then
      none
    else
      literalContent? quote isTriple rest (c :: taken)

/-- The number of bytes of some characters. -/
def byteLength (cs : List Char) : Nat :=
  cs.foldl (fun length c => length + c.utf8Size) 0

/-- Whether three quotes of a kind come next. -/
def atTripleQuote (quote : Char) (cs : List Char) : Bool :=
  [quote, quote, quote].isPrefixOf cs

/-- The number of quotes that open and close a literal. -/
def quoteCount (isTriple : Bool) : Nat :=
  if isTriple then 3 else 1

/-- A text or bytes literal with the given prefix that starts here. -/
def scanLiteral (start : Cursor) (letters : List Char) (kind : LiteralPrefix) (quote : Char) :
    TokenKind × Cursor :=
  let atQuote := start.skip letters.length
  let isTriple := atTripleQuote quote atQuote.rest
  let opening := atQuote.skip (quoteCount isTriple)
  match literalContent? quote isTriple opening.rest [] with
  | none => (.invalid start.offset, start)
  | some (reversed, rest) =>
    let content := reversed.reverse
    let stop := opening.offset + byteLength content + quoteCount isTriple
    let token :=
      if kind.kind = .bytes then
        match bytesFault? kind.isRaw opening.offset content with
        | some fault => .invalid fault
        | none => .bytes
      else
        match resolveEscapes kind.isRaw opening.offset content with
        | .ok value => .string (String.ofList value)
        | .error fault => .invalid fault
    (token, ⟨rest, stop⟩)

/-! ### Formatted literals -/

/-- A formatted literal that is being read. -/
structure FormatContext where
  quote : Char
  isTriple : Bool
  isRaw : Bool
  /-- How many brackets were open where the literal started. -/
  nesting : Nat
  /-- How many format specifications are open. -/
  specDepth : Nat := 0

namespace FormatContext

/-- Whether a replacement field is being read, with `nesting` brackets open. -/
def inField (context : FormatContext) (nesting : Nat) : Bool :=
  context.specDepth < nesting - context.nesting

/-- Whether a format specification is being read. -/
def inSpec (context : FormatContext) (nesting : Nat) : Bool :=
  context.specDepth ≠ 0 && !context.inField nesting

/-- The context after a colon, if the colon starts a format specification. -/
def startSpec? (context : FormatContext) (nesting : Nat) : Option FormatContext :=
  if nesting - context.nesting - context.specDepth = 1 then
    some { context with specDepth := context.specDepth + 1 }
  else
    none

/-- The context after the end of a format specification, if one is being read. -/
def endSpec (context : FormatContext) (nesting : Nat) : FormatContext :=
  if context.inSpec nesting then { context with specDepth := context.specDepth - 1 } else context

end FormatContext

/-- The text part of a formatted literal, in reverse and before `taken`, and what follows it: a
quote or a brace. There is none if the text is not followed by either. The next `kept` characters
belong to the text whatever they are. Doubled braces belong to it outside format specifications,
and so does the brace that ends the name of a character. -/
def formatTextFrom? (context : FormatContext) (inSpec : Bool) :
    Nat → Bool → List Char → List Char → Option (List Char × List Char)
  | _, _, [], _ => none
  | kept + 1, inName, c :: rest, taken =>
    formatTextFrom? context inSpec kept inName rest (c :: taken)
  | 0, inName, c :: rest, taken =>
    if c = '\\' then
      if rest.head?.any isBrace then
        formatTextFrom? context inSpec 0 inName rest (c :: taken)
      else if !context.isRaw && ['N', '\x7b'].isPrefixOf rest then
        formatTextFrom? context inSpec 2 true rest (c :: taken)
      else if ['\r', '\n'].isPrefixOf rest then
        formatTextFrom? context inSpec 2 inName rest (c :: taken)
      else
        formatTextFrom? context inSpec 1 inName rest (c :: taken)
    else if isLineEnd c && !context.isTriple then
      none
    else if c = context.quote && (!context.isTriple || atTripleQuote c (c :: rest)) then
      some (taken, c :: rest)
    else if c = '\x7d' && inName then
      formatTextFrom? context inSpec 0 false rest (c :: taken)
    else if isBrace c then
      if rest.head? == some c && !inSpec then
        formatTextFrom? context inSpec 1 inName rest (c :: taken)
      else
        some (taken, c :: rest)
    else
      formatTextFrom? context inSpec 0 inName rest (c :: taken)

/-- The token for the text part or the end of a formatted literal, if one comes next. -/
def scanFormatText? (context : FormatContext) (nesting : Nat) (start : Cursor) :
    Option (TokenKind × Cursor) :=
  let closing := List.replicate (quoteCount context.isTriple) context.quote
  if start.startsWith closing then
    some (.formatEnd, start.skip closing.length)
  else
    match formatTextFrom? context (context.inSpec nesting) 0 false start.rest [] with
    | none => some (.invalid start.offset, start)
    | some ([], _) => none
    | some (reversed, rest) =>
      let content := reversed.reverse
      let after : Cursor := ⟨rest, start.offset + byteLength content⟩
      match resolveEscapes context.isRaw start.offset content with
      | .ok _ => some (.formatText, after)
      | .error fault => some (.invalid fault, after)

end Keystroke.Python
