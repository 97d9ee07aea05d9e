import Keystroke.Python.Token
import Keystroke.Python.Tree

/-!
# Reading tokens by a grammar

A `Parser` consumes tokens from the front of a list and stops at the first token that does not fit.
The rules of the grammar refer to each other, so they are written against a record `Grammar` of the
rules that may recur. A rule that recurs has consumed a token before, which bounds how deep the
rules can nest by the number of tokens.
-/

namespace Keystroke.Python

/-- The tokens do not fit the grammar from an offset on. -/
structure SyntaxFault where
  offset : Nat
deriving DecidableEq, Repr

/-- A rule that reads tokens from the front of a list. It knows how many tokens there were at
first, which bounds all repetitions. -/
abbrev Parser := ReaderT Nat (StateT (List Token) (Except SyntaxFault))

namespace Parser

/-- The next token. The last token is never consumed, so there always is one. -/
def peek : Parser Token :=
  return (← get).headD ⟨.endOfInput, 0, 0, none⟩

def kindHere : Parser TokenKind :=
  return (← peek).kind

def kindAfter (count : Nat) : Parser TokenKind :=
  return ((← get)[count]?.map (·.kind)).getD .endOfInput

/-- The offset of the next token. -/
def here : Parser Nat :=
  return (← peek).start

/-- Consumes one token. -/
def advance : Parser Unit :=
  modify (·.drop 1)

/-- A fault at an offset. -/
def failAt {α : Type} (offset : Nat) : Parser α :=
  throw ⟨offset⟩

/-- A fault at the next token. -/
def failHere {α : Type} : Parser α := do
  failAt (← peek).fault

def isAt (kind : TokenKind) : Parser Bool :=
  return (← kindHere) = kind

/-- Whether the next token is a symbol. -/
def atSymbol (text : String) : Parser Bool :=
  isAt (.symbol text)

/-- Whether the next token is a keyword. -/
def atKeyword (word : String) : Parser Bool :=
  isAt (.keyword word)

/-- Whether the next token is a name with the given text. -/
def atWord (text : String) : Parser Bool :=
  return (← kindHere).isName text

/-- Whether the next token is a name. -/
def atName : Parser Bool := do
  match ← kindHere with
  | .name _ => return true
  | _ => return false

/-- Consumes the next token if it is of a kind, and tells whether it was. -/
def eat (kind : TokenKind) : Parser Bool := do
  if ← isAt kind then
    advance
    return true
  else
    return false

/-- Consumes a symbol if it comes next, and tells whether it did. -/
def eatSymbol (text : String) : Parser Bool :=
  eat (.symbol text)

/-- Consumes a keyword if it comes next, and tells whether it did. -/
def eatKeyword (word : String) : Parser Bool :=
  eat (.keyword word)

/-- Consumes a name with the given text if it comes next, and tells whether it did. -/
def eatWord (text : String) : Parser Bool := do
  if ← atWord text then
    advance
    return true
  else
    return false

/-- Consumes a token of a kind, which has to come next. -/
def expect (kind : TokenKind) : Parser Unit := do
  unless ← eat kind do
    failHere

/-- Consumes a symbol, which has to come next. -/
def expectSymbol (text : String) : Parser Unit :=
  expect (.symbol text)

/-- Consumes a keyword, which has to come next. -/
def expectKeyword (word : String) : Parser Unit :=
  expect (.keyword word)

/-- A name, which has to come next, and its offset. -/
def expectName : Parser (Nat × Word) := do
  let token ← peek
  match token.kind with
  | .name word =>
    advance
    return (token.start, word)
  | _ => failHere

/-- Whether an expression can start with a keyword. -/
def startsExpression (word : String) : Bool :=
  ["False", "None", "True", "await", "lambda", "not", "yield"].contains word

/-- Whether an expression can start here. -/
def atExpression : Parser Bool := do
  match ← kindHere with
  | .name _ | .int _ | .float _ | .imaginary | .string _ | .bytes | .formatStart _ => return true
  | .keyword word => return startsExpression word
  | .symbol text =>
    return ["+", "-", "~", "*", "**", "(", "[", "\x7b", "..."].contains text
  | _ => return false

/-- The keywords with which a statement starts and an expression does not. -/
def statementKeywords : List String :=
  ["assert", "async", "break", "class", "continue", "def", "del", "for", "from", "global", "if",
    "import", "nonlocal", "pass", "raise", "return", "try", "while", "with"]

/-- Whether a statement can start here. -/
def atStatement : Parser Bool := do
  match ← kindHere with
  | .keyword word => return startsExpression word || statementKeywords.contains word
  | .symbol "@" => return true
  | _ => atExpression

/-- Consumes the symbol that closes a list, which has to come next. When no item but a statement
starts here, the bracket was left open, and the fault is where its line ended. -/
def closeList (atItem : Parser Bool) (text : String) : Parser Unit := do
  unless ← eatSymbol text do
    let token ← peek
    if !(← atItem) && (← atStatement) then
      failAt (token.lineBreak.getD token.start)
    else
      failHere

/-- Items one after another, at most `bound`, until there is none. -/
def manyFrom {α : Type} (item : Parser (Option α)) : Nat → Parser (List α)
  | 0 => return []
  | bound + 1 => do
    match ← item with
    | some a => return a :: (← manyFrom item bound)
    | none => return []

/-- Items one after another until there is none. An item consumes at least one token. -/
def many {α : Type} (item : Parser (Option α)) : Parser (List α) := do
  manyFrom item (← read)

/-- Items with commas between them, at most `bound`, and whether a comma follows the last. -/
def commaItemsFrom {α : Type} (atItem : Parser Bool) (item : Parser α) :
    Nat → Parser (List α × Bool)
  | 0 => return ([], false)
  | bound + 1 => do
    if ← atItem then
      let a ← item
      if ← eatSymbol "," then
        let (rest, endsWithComma) ← commaItemsFrom atItem item bound
        return (a :: rest, endsWithComma || rest.isEmpty)
      else
        return ([a], false)
    else
      return ([], false)

/-- Items with commas between them, and whether a comma follows the last. -/
def commaItems {α : Type} (atItem : Parser Bool) (item : Parser α) : Parser (List α × Bool) := do
  commaItemsFrom atItem item (← read)

/-- Names with commas between them, at least one and without a comma at the end. -/
def names : Parser (List Word) := do
  let (_, first) ← expectName
  let others ← many do
    if ← eatSymbol "," then
      return some (← expectName).2
    else
      return none
  return first :: others

/-- Runs a rule and goes back to where it started if it does not fit. -/
def attempt {α : Type} (rule : Parser α) : Parser (Option α) := fun bound tokens =>
  match rule bound tokens with
  | .ok (a, rest) => .ok (some a, rest)
  | .error _ => .ok (none, tokens)

end Parser

/-- What may stand where an expression is read. -/
structure Context where
  /-- A `yield` may stand here. -/
  allowsYield : Bool := false
  /-- A starred expression may stand here. -/
  allowsStar : Bool := false
  /-- The operand of a star may be any expression. -/
  hasWideStar : Bool := false
  /-- The word `in` belongs to what follows the expression. -/
  excludesIn : Bool := false

namespace Context

/-- Neither `yield` nor a star. -/
def plain : Context := {}

/-- A star before an operand as wide as a bitwise operation. -/
def starred : Context := { allowsStar := true }

/-- A star before any expression. -/
def wideStarred : Context := { allowsStar := true, hasWideStar := true }

/-- A `yield`, or a star before an operand as wide as a bitwise operation. -/
def value : Context := { allowsYield := true, allowsStar := true }

def loopTarget : Context := { wideStarred with excludesIn := true }

end Context

/-- An expression and how it was written. -/
structure Parsed where
  expr : Expr
  /-- It stands in parentheses, or its first operand does. -/
  inParens : Bool := false
  /-- It is a tuple without parentheses. -/
  isBareTuple : Bool := false

/-- What a pattern is, as far as the rules around it ask. -/
inductive PatternKind where
  /-- A starred name, which stands for the rest of a sequence. -/
  | star
  /-- The underscore, which fits anything. -/
  | wildcard
  /-- A name that is bound. -/
  | capture
  /-- Names with points between them. -/
  | path
  /-- A number without an imaginary part, or its opposite. -/
  | real
  | imaginary
  /-- Any other value: text literals, or a computed number. -/
  | value
  /-- One of the constants `True`, `False` and `None`. -/
  | constant
  /-- A pattern with parts, or with a name for the whole. -/
  | compound
deriving DecidableEq

/-- The rules that may recur inside other rules. -/
structure Grammar where
  /-- An expression without a comma or `:=` outside brackets. -/
  conditional : Context → Parser Parsed
  /-- An expression whose operators bind tighter than a precedence. -/
  binary : Nat → Context → Parser Parsed
  /-- The parts of a formatted literal up to its end or the end of a field. -/
  formatParts : Parser Unit
  /-- A pattern of a `case`, where a star may or may not stand. -/
  pattern : Bool → Parser PatternKind
  /-- The statements on the next lines of a block, up to the end of a line. -/
  statements : Parser (List Stmt)

/-- The grammar without rules. -/
def Grammar.empty : Grammar where
  conditional _ := Parser.failHere
  binary _ _ := Parser.failHere
  formatParts := Parser.failHere
  pattern _ := Parser.failHere
  statements := Parser.failHere

end Keystroke.Python
