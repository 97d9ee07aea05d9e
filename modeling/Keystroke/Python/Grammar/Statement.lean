import Keystroke.Python.Grammar.Pattern

/-!
# Statements

The rules for statements and blocks. A statement starts at its first token, a decorated definition
at its first decorator.
-/

namespace Keystroke.Python

open Keystroke.Python.Parser

/-! ### Simple statements -/

/-- The keyword that comes next is consumed, and a statement with its offset is made. -/
def keywordStmt (stmt : Nat → Stmt) : Parser Stmt := do
  let start ← here
  advance
  return stmt start

/-- A `return`, with its value if there is one. -/
def returnStmt (g : Grammar) : Parser Stmt := do
  let start ← here
  advance
  if ← atExpression then
    return .returns start (some (← exprList g .starred).expr)
  else
    return .returns start none

/-- A `raise`, with its exception and cause. Both may be left out only before the end of the
line. -/
def raiseStmt (g : Grammar) : Parser Stmt := do
  let start ← here
  advance
  unless ← isAt .newline do
    (← exprList g .plain).rejectBareTuple
    if ← eatKeyword "from" then
      (← exprList g .plain).rejectBareTuple
  return .outside start .raise

/-- A `del` with its targets. -/
def deleteStmt (g : Grammar) : Parser Stmt := do
  let start ← here
  advance
  let target : Parser Unit := do
    let parsed ← conditional g .wideStarred
    if let some fault := parsed.expr.targetFault? false then
      failAt fault
  let (targets, _) ← commaItems atExpression target
  if targets.isEmpty then
    failHere
  return .outside start .delete

/-- An `assert`; its message is left out. -/
def assertStmt (g : Grammar) : Parser Stmt := do
  let start ← here
  advance
  let test ← conditional g .plain
  if ← eatSymbol "," then
    discard <| conditional g .plain
  return .assertion start test.expr

/-- A `global` or `nonlocal` with its names. -/
def namesStmt (what : OutsideStmt) : Parser Stmt := do
  let start ← here
  advance
  discard names
  return .outside start what

/-- A new name for something imported, if one is given. -/
def importAlias : Parser Unit := do
  if ← eatKeyword "as" then
    discard expectName

/-- Items with commas between them, at least one and without a comma at the end. -/
def bareItems (item : Parser Unit) : Parser Unit := do
  item
  discard <| many do
    if ← eatSymbol "," then
      item
      return some ()
    else
      return none

def importModules : Parser Unit := do
  expectKeyword "import"
  bareItems do
    discard dottedName
    importAlias

def importNames : Parser Unit := do
  expectKeyword "from"
  let dots ← many do
    if ← eatSymbol "." then
      return some ()
    else if ← eatSymbol "..." then
      return some ()
    else
      return none
  if dots.isEmpty || (← atName) then
    discard dottedName
  expectKeyword "import"
  let item : Parser Unit := do
    discard expectName
    importAlias
  if ← eatSymbol "(" then
    let (items, _) ← commaItems atName item
    if items.isEmpty && (← atSymbol ")") then
      failHere
    closeList atName ")"
  else
    unless ← eatSymbol "*" do
      bareItems item

/-- An `import` of either kind, at once or, after the word `lazy`, at the first use. -/
def importStmt : Parser Stmt := do
  let start ← here
  discard <| eatWord "lazy"
  if ← atKeyword "from" then importNames else importModules
  return .imports start

/-- Whether the word `lazy` comes next and marks an import. -/
def atLazyImport : Parser Bool := do
  if ← atWord "lazy" then
    let following ← kindAfter 1
    return following = .keyword "import" || following = .keyword "from"
  else
    return false

/-- Whether the definition of a type alias comes next. -/
def atTypeAlias : Parser Bool := do
  if ← atWord "type" then
    match ← kindAfter 1 with
    | .name _ =>
      let following ← kindAfter 2
      return following = .symbol "[" || following = .symbol "="
    | _ => return false
  else
    return false

def typeAliasStmt (g : Grammar) : Parser Stmt := do
  let start ← here
  advance
  discard expectName
  typeParams g
  expectSymbol "="
  discard <| conditional g .plain
  return .outside start .typeAlias

/-- The targets after the first and the value of an assignment, after its first sign. -/
def assignedValues (g : Grammar) : Parser (List Expr × Expr) := do
  let first ← exprList g .value
  let others ← many do
    if ← eatSymbol "=" then
      return some (← exprList g .value).expr
    else
      return none
  let values := first.expr :: others
  return (values.dropLast, values.getLast?.getD first.expr)

/-- Whether an expression can be annotated or combined with a value: a name, an attribute or a
subscript. -/
def Expr.isSingleTarget : Expr → Bool
  | .name _ _ => true
  | .member _ _ _ _ => true
  | .subscript _ _ _ => true
  | _ => false

/-- An annotated name, after its target, with its value if there is one. -/
def annotatedStmt (g : Grammar) (start : Nat) (target : Expr) : Parser Stmt := do
  advance
  unless target.isSingleTarget do
    failAt target.start
  discard <| conditional g .plain
  if ← eatSymbol "=" then
    return .annotated start target (some (← exprList g .value).expr)
  else
    return .annotated start target none

/-- An expression or an assignment. -/
def expressionStmt (g : Grammar) : Parser Stmt := do
  let start ← here
  let first ← exprList g .value
  if ← eatSymbol "=" then
    let (others, value) ← assignedValues g
    if let some fault := targetsFault? true (first.expr :: others) then
      failAt fault
    return .assign start first.expr others value
  else if ← atSymbol ":" then
    annotatedStmt g start first.expr
  else
    match ← kindHere with
    | .symbol sign =>
      match BinaryOp.ofAssignSign? sign with
      | some op =>
        advance
        unless first.expr.isSingleTarget do
          failAt first.expr.start
        return .augmented start first.expr op (← exprList g .value).expr
      | none => return .expression start first.expr
    | _ => return .expression start first.expr

/-- A statement without a block. -/
def simpleStmt (g : Grammar) : Parser Stmt := do
  match ← kindHere with
  | .keyword "return" => returnStmt g
  | .keyword "import" | .keyword "from" => importStmt
  | .keyword "pass" => keywordStmt .pass
  | .keyword "break" => keywordStmt .breaks
  | .keyword "continue" => keywordStmt .continues
  | .keyword "raise" => raiseStmt g
  | .keyword "del" => deleteStmt g
  | .keyword "assert" => assertStmt g
  | .keyword "global" => namesStmt .globals
  | .keyword "nonlocal" => namesStmt .nonlocals
  | _ =>
    if ← atTypeAlias then typeAliasStmt g
    else if ← atLazyImport then importStmt
    else expressionStmt g

/-- Where the statements of a line stand. -/
inductive LinePlace where
  | ownLine
  /-- After the colon that opens a block. -/
  | afterColon
deriving DecidableEq

/-- The statements of one line, with semicolons between them. On a line of its own, the word
`match` after a semicolon is read as a keyword, and no statement with a block can stand there. -/
def simpleLine (g : Grammar) (place : LinePlace) : Parser (List Stmt) := do
  let first ← simpleStmt g
  let others ← many do
    if ← eatSymbol ";" then
      if ← isAt .newline then
        return none
      if place = .ownLine && (← atWord "match") then
        failHere
      return some (← simpleStmt g)
    else
      return none
  expect .newline
  return first :: others

/-! ### Statements with blocks -/

/-- The block after a colon: the rest of the line, or indented lines. A block that is missing at
the end of its surroundings is reported at the end of the line that should open it. -/
def block (g : Grammar) : Parser (List Stmt) := do
  expectSymbol ":"
  let lineEnd ← here
  if ← eat .newline then
    let token ← peek
    if token.kind = .indent then
      advance
      let lines ← many do
        if ← isAt .dedent then
          return none
        else
          return some (← g.statements)
      expect .dedent
      return lines.flatten
    else if token.kind = .dedent || token.kind = .endOfInput then
      failAt lineEnd
    else
      failHere
  else
    simpleLine g .afterColon

def elseBlock (g : Grammar) : Parser (Option (List Stmt)) := do
  if ← eatKeyword "else" then
    return some (← block g)
  else
    return none

/-- A condition and its block, after the keyword. -/
def conditionalBlock (g : Grammar) : Parser (Expr × List Stmt) := do
  let test ← namedExpr g .plain
  return (test.expr, ← block g)

/-- An `if` with its clauses. -/
def ifStmt (g : Grammar) : Parser Stmt := do
  let start ← here
  advance
  let (test, body) ← conditionalBlock g
  let clauses ← many do
    let start ← here
    if ← eatKeyword "elif" then
      return some (start, ← conditionalBlock g)
    else
      return none
  let last := (← elseBlock g).getD []
  let orElse := clauses.foldr
    (fun (start, test, body) orElse => [Stmt.ifElse start true test body orElse]) last
  return .ifElse start false test body orElse

/-- A `while` loop. -/
def whileStmt (g : Grammar) : Parser Stmt := do
  let start ← here
  advance
  let (test, body) ← conditionalBlock g
  return .whileLoop start (← elseBlock g).isSome test body

def forStmt (g : Grammar) (start : Nat) (isAsync : Bool) : Parser Stmt := do
  advance
  let target ← exprList g .loopTarget
  checkTarget target.expr
  expectKeyword "in"
  let iterable ← exprList g .starred
  let body ← block g
  return .forLoop start isAsync (← elseBlock g).isSome target.expr iterable.expr body

def functionStmt (g : Grammar) (start : Nat) (isAsync isDecorated : Bool) : Parser Stmt := do
  advance
  let (nameStart, name) ← expectName
  typeParams g
  expectSymbol "("
  let params ← params g true
  closeList atParam ")"
  if ← eatSymbol "->" then
    (← exprList g .plain).rejectBareTuple
  let body ← block g
  return .functionDef start ⟨isAsync, isDecorated, nameStart, name, params⟩ body

def classStmt (g : Grammar) (start : Nat) : Parser Stmt := do
  advance
  discard expectName
  typeParams g
  if ← atSymbol "(" then
    discard <| arguments g
  discard <| block g
  return .outside start .classDef

def withItem (g : Grammar) : Parser Unit := do
  discard <| conditional g .plain
  if ← eatKeyword "as" then
    let target ← conditional g .wideStarred
    checkTarget target.expr

/-- The items of a `with` in parentheses, where the colon of the block follows. -/
def withGroup (g : Grammar) : Parser Unit := do
  expectSymbol "("
  let (items, _) ← commaItems atExpression (withItem g)
  if items.isEmpty then
    failHere
  closeList atExpression ")"
  unless ← atSymbol ":" do
    failHere

def withStmt (g : Grammar) (start : Nat) : Parser Stmt := do
  advance
  let isGroup ← if ← atSymbol "(" then pure (← attempt (withGroup g)).isSome else pure false
  unless isGroup do
    bareItems (withItem g)
  discard <| block g
  return .outside start .withBlock

/-- A handler of a `try`, and whether it is starred. -/
def exceptClause (g : Grammar) : Parser (Option (Nat × Bool)) := do
  let start ← here
  if ← eatKeyword "except" then
    let isStarred ← eatSymbol "*"
    if ← atExpression then
      let types ← exprList g .plain
      if ← eatKeyword "as" then
        types.rejectBareTuple
        discard expectName
    else if isStarred then
      failHere
    discard <| block g
    return some (start, isStarred)
  else
    return none

/-- A `try` with its handlers. -/
def tryStmt (g : Grammar) : Parser Stmt := do
  let start ← here
  advance
  discard <| block g
  let handlers ← many (exceptClause g)
  if let (_, isStarred) :: others := handlers then
    if let some (fault, _) := others.find? (·.2 ≠ isStarred) then
      failAt fault
  discard <| elseBlock g
  if ← eatKeyword "finally" then
    discard <| block g
  else if handlers.isEmpty then
    failHere
  return .outside start .tryBlock

def matchSubject (g : Grammar) : Parser Unit := do
  let first ← namedExpr g .starred
  if ← eatSymbol "," then
    discard <| commaItems atExpression (namedExpr g .starred)
  else if let .starred fault _ := first.expr then
    failAt fault

/-- A `case` of a `match`. -/
def caseClause (g : Grammar) : Parser Unit := do
  unless ← eatWord "case" do
    failHere
  topPattern g
  if ← eatKeyword "if" then
    discard <| namedExpr g .plain
  discard <| block g

/-- The cases of a `match`, after its subject. -/
def matchBody (g : Grammar) : Parser Unit := do
  expectSymbol ":"
  expect .newline
  expect .indent
  caseClause g
  discard <| many do
    if ← atWord "case" then
      caseClause g
      return some ()
    else
      return none
  expect .dedent

/-- How the word `match` is read before a token. -/
inductive MatchReading where
  | keyword
  | name
  /-- A keyword if a subject and the cases follow, else a name. -/
  | either
deriving DecidableEq

/-- How the word `match` is read before two tokens. -/
def matchReading (first second : TokenKind) : MatchReading :=
  match first with
  | .name _ | .int _ | .float _ | .imaginary | .string _ | .bytes | .formatStart _ => .keyword
  | .keyword "not" => if second = .keyword "in" then .name else .keyword
  | .keyword word => if startsExpression word then .keyword else .name
  | .symbol text =>
    if ["\x7b", "~", "..."].contains text then .keyword
    else if ["(", "[", "*", "-", "+"].contains text then .either
    else .name
  | _ => .name

/-- Whether the cases of a `match` follow its subject: after a colon that ends the line, or, where
the colon was forgotten, on the next line. -/
def atCases : Parser Bool := do
  match ← kindHere with
  | .symbol ":" => return (← kindAfter 1) = .newline
  | .newline => return (← kindAfter 1) = .indent && (← kindAfter 2).isName "case"
  | _ => return false

/-- Whether the statement that starts with the word `match` selects among cases; if so its subject
has been consumed. -/
def eatMatchSubject (g : Grammar) : Parser Bool := do
  match matchReading (← kindAfter 1) (← kindAfter 2) with
  | .name => return false
  | .keyword =>
    advance
    matchSubject g
    return true
  | .either =>
    let subject ← attempt do
      advance
      matchSubject g
      unless ← atCases do
        failHere
    return subject.isSome

/-- A statement that starts with the word `match`. -/
def matchStmt (g : Grammar) : Parser (List Stmt) := do
  let start ← here
  if ← eatMatchSubject g then
    matchBody g
    return [.outside start .matchBlock]
  else
    simpleLine g .ownLine

/-- A definition after its decorators, which start at `start`. -/
def decoratedStmt (g : Grammar) : Parser Stmt := do
  let start ← here
  discard <| many do
    if ← eatSymbol "@" then
      discard <| namedExpr g .plain
      expect .newline
      return some ()
    else
      return none
  let isAsync ← eatKeyword "async"
  if ← atKeyword "def" then
    functionStmt g start isAsync true
  else if !isAsync && (← atKeyword "class") then
    classStmt g start
  else
    failHere

/-- A statement that starts with `async`. -/
def asyncStmt (g : Grammar) : Parser Stmt := do
  let start ← here
  advance
  match ← kindHere with
  | .keyword "def" => functionStmt g start true false
  | .keyword "with" => withStmt g start
  | .keyword "for" => forStmt g start true
  | _ => failHere

/-- A statement with a block, or the statements of one line. -/
def statements (g : Grammar) : Parser (List Stmt) := do
  let start ← here
  match ← kindHere with
  | .keyword "if" => return [← ifStmt g]
  | .keyword "while" => return [← whileStmt g]
  | .keyword "for" => return [← forStmt g start false]
  | .keyword "def" => return [← functionStmt g start false false]
  | .keyword "class" => return [← classStmt g start]
  | .keyword "with" => return [← withStmt g start]
  | .keyword "try" => return [← tryStmt g]
  | .keyword "async" => return [← asyncStmt g]
  | .symbol "@" => return [← decoratedStmt g]
  | .name word => if word.text = "match" then matchStmt g else simpleLine g .ownLine
  | _ => simpleLine g .ownLine

end Keystroke.Python
