import Keystroke.Python.Grammar.Parameter

/-!
# Expressions

The rules for expressions, from the tightest binding to the loosest. An operation starts where its
left operand starts, parentheses included; an expression in parentheses starts inside them, except
that a tuple in parentheses starts at its parenthesis.
-/

namespace Keystroke.Python

open Keystroke.Python.Parser

/-! ### Targets -/

mutual

/-- The offset of the first part of an expression that cannot be assigned to. -/
def Expr.targetFault? (allowsStar : Bool) : Expr → Option Nat
  | .name _ _ => .none
  | .member _ _ _ _ => .none
  | .subscript _ _ _ => .none
  | .list _ elements => targetsFault? allowsStar elements
  | .tuple _ elements => targetsFault? allowsStar elements
  | .starred start operand =>
    if allowsStar then operand.targetFault? allowsStar else some start
  | expr => some expr.start

/-- The offset of the first part of some expressions that cannot be assigned to. -/
def targetsFault? (allowsStar : Bool) : List Expr → Option Nat
  | [] => .none
  | expr :: rest => (expr.targetFault? allowsStar).or (targetsFault? allowsStar rest)

end

/-- Fails at the part of an expression that cannot be assigned to. -/
def checkTarget (expr : Expr) : Parser Unit := do
  if let some fault := expr.targetFault? true then
    failAt fault

/-! ### Operators and how tight they bind -/

/-- An operator that can follow an operand. -/
inductive FollowingOp where
  | bool (op : BoolOp)
  | compare (op : CompareOp)
  | binary (op : BinaryOp)

/-- How tight `or` binds. -/
def orLevel : Nat := 1

/-- How tight `and` binds. -/
def andLevel : Nat := 2

/-- How tight `not` binds. -/
def notLevel : Nat := 3

/-- How tight a comparison binds. -/
def compareLevel : Nat := 4

/-- How tight a sign before an operand binds. -/
def signLevel : Nat := 11

/-- How tight a power binds. Its exponent may have a sign. -/
def powLevel : Nat := 12

/-- How tight `await` binds. -/
def awaitLevel : Nat := 13

/-- How tight an operator between two operands binds. -/
def BinaryOp.level : BinaryOp → Nat
  | .bitOr => 5
  | .bitXor => 6
  | .bitAnd => 7
  | .shiftLeft | .shiftRight => 8
  | .add | .sub => 9
  | .mul | .matMul | .div | .mod | .floorDiv => 10
  | .pow => powLevel

/-- How tight an operator binds. -/
def FollowingOp.level : FollowingOp → Nat
  | .bool .or => orLevel
  | .bool .and => andLevel
  | .compare _ => compareLevel
  | .binary op => op.level

/-- Whether an operator is left to an outer rule that reads operators tighter than `level`. Powers
group to the right. -/
def FollowingOp.stopsAt (op : FollowingOp) (level : Nat) : Bool :=
  match op with
  | .binary .pow => decide (op.level < level)
  | _ => decide (op.level ≤ level)

def compareOfSign? (sign : String) : Option CompareOp :=
  match sign with
  | "==" => some .eq
  | "!=" => some .notEq
  | "<" => some .lt
  | "<=" => some .le
  | ">" => some .gt
  | ">=" => some .ge
  | _ => none

/-- The operator made of the next tokens, and how many tokens it has. -/
def followingOp? (first second : TokenKind) : Option (FollowingOp × Nat) :=
  match first with
  | .keyword "or" => some (.bool .or, 1)
  | .keyword "and" => some (.bool .and, 1)
  | .keyword "in" => some (.compare .isIn, 1)
  | .keyword "is" =>
    if second = .keyword "not" then some (.compare .isNot, 2) else some (.compare .is, 1)
  | .keyword "not" => if second = .keyword "in" then some (.compare .notIn, 2) else none
  | .symbol sign =>
    match compareOfSign? sign with
    | some op => some (.compare op, 1)
    | none => (BinaryOp.ofSign? sign).map fun op => (.binary op, 1)
  | _ => none

/-- The operator that comes next, and how many tokens it has. -/
def operatorHere (context : Context) : Parser (Option (FollowingOp × Nat)) := do
  let first ← kindHere
  if context.excludesIn && first = .keyword "in" then
    return none
  return followingOp? first (← kindAfter 1)

/-! ### Names, commas and comprehensions, over a rule for expressions -/

/-- An expression that may be given a name by `:=`. -/
def namedOf (rule : Context → Parser Parsed) (context : Context) : Parser Parsed := do
  let start ← here
  let parsed ← rule context
  if ← eatSymbol ":=" then
    match parsed.expr with
    | .name _ _ =>
      discard <| rule .plain
      return { expr := .outside start .named }
    | expr => failAt expr.start
  else
    return parsed

/-- Whether a tuple without parentheses can end before the next token. -/
def atTupleEnd : Parser Bool := do
  match ← kindHere with
  | .newline | .dedent | .endOfInput => return true
  | .keyword word => return ["as", "async", "else", "for", "from", "in"].contains word
  | .symbol text =>
    return [")", "]", "\x7d", ";", ":", ":=", "=", "!"].contains text
      || (BinaryOp.ofAssignSign? text).isSome
  | _ => return false

/-- An expression, or a tuple of expressions with commas between them, of which only the first may
be a `yield`. -/
def listOf (rule : Context → Parser Parsed) (context : Context) : Parser Parsed := do
  let start ← here
  let first ← rule context
  if ← eatSymbol "," then
    let element : Parser Expr := return (← rule { context with allowsYield := false }).expr
    let (others, _) ← commaItems atExpression element
    unless ← atTupleEnd do
      failHere
    return { expr := .tuple start (first.expr :: others), isBareTuple := true }
  else
    return first

/-- Fails at a tuple without parentheses. -/
def Parsed.rejectBareTuple (parsed : Parsed) : Parser Unit := do
  if parsed.isBareTuple then
    failAt parsed.expr.start

/-- An expression that is as wide as a bitwise operation unless it starts with parentheses. -/
def bitwiseOperand (g : Grammar) : Parser Expr := do
  let parsed ← g.conditional .plain
  if parsed.inParens then
    return parsed.expr
  match parsed.expr with
  | .compare start _ _ _ _ => failAt start
  | .boolOp start _ _ _ _ => failAt start
  | .unary start .not _ => failAt start
  | .outside start .conditional => failAt start
  | .outside start .lambda => failAt start
  | expr => return expr

/-- Whether a clause of a comprehension comes next. -/
def atComprehension : Parser Bool := do
  match ← kindHere with
  | .keyword "for" | .keyword "async" => return true
  | _ => return false

def comprehensionClause (g : Grammar) : Parser Unit := do
  discard <| eatKeyword "async"
  expectKeyword "for"
  let target ← listOf g.conditional .loopTarget
  checkTarget target.expr
  expectKeyword "in"
  discard <| g.binary 0 .plain
  discard <| many do
    if ← eatKeyword "if" then
      discard <| g.binary 0 .plain
      return some ()
    else
      return none

/-- The clauses of a comprehension, after its element. -/
def comprehensionClauses (g : Grammar) : Parser Unit := do
  discard <| many do
    if ← atComprehension then
      comprehensionClause g
      return some ()
    else
      return none

/-! ### Text literals -/

/-- A field of a formatted literal: an expression, its conversion and its format. The letter of a
conversion stands right after its mark. -/
def formatField (g : Grammar) : Parser Unit := do
  expectSymbol "\x7b"
  let value ← listOf g.conditional .value
  if let .outside start .lambda := value.expr then
    unless value.inParens do
      failAt start
  discard <| eatSymbol "="
  let mark ← peek
  if ← eatSymbol "!" then
    let (start, conversion) ← expectName
    unless start = mark.stop && ["s", "r", "a"].contains conversion.text do
      failAt mark.stop
  if ← eatSymbol ":" then
    g.formatParts
  expectSymbol "\x7d"

/-- The parts of a formatted literal up to its end or the end of a field. -/
def formatParts (g : Grammar) : Parser Unit := do
  discard <| many do
    match ← kindHere with
    | .formatText =>
      advance
      return some ()
    | .symbol "\x7b" =>
      formatField g
      return some ()
    | _ => return none

/-- One of the literals that stand side by side. -/
inductive LiteralPart where
  | text (value : String)
  | bytes
  | format
  | template
deriving DecidableEq

/-- A text literal, if one comes next. -/
def literalPart (g : Grammar) : Parser (Option LiteralPart) := do
  match ← kindHere with
  | .string value =>
    advance
    return some (.text value)
  | .bytes =>
    advance
    return some .bytes
  | .formatStart isTemplate =>
    advance
    formatParts g
    expect .formatEnd
    return some (if isTemplate then .template else .format)
  | _ => return none

/-- Text literals side by side. Bytes and template literals stand with their own kind only, and one
formatted part makes the whole formatted. -/
def literals (g : Grammar) : Parser Expr := do
  let start ← here
  let parts ← many (literalPart g)
  if parts.contains .bytes then
    if parts.all (· = .bytes) then return .outside start .bytes else failAt start
  else if parts.contains .template then
    if parts.all (· = .template) then return .outside start .other else failAt start
  else if parts.contains .format then
    return .outside start .formatted
  else
    let text := parts.filterMap fun
      | .text value => some value
      | _ => none
    return .string start (String.join text)

/-! ### Brackets -/

/-- What stands between parentheses: a tuple, a generator, or an expression. -/
def group (g : Grammar) : Parser Parsed := do
  let start ← here
  expectSymbol "("
  if ← eatSymbol ")" then
    return { expr := .tuple start [] }
  let first ← namedOf g.conditional .value
  if ← eatSymbol "," then
    let (others, _) ←
      commaItems atExpression (return (← namedOf g.conditional .starred).expr)
    closeList atExpression ")"
    return { expr := .tuple start (first.expr :: others) }
  else if ← atComprehension then
    comprehensionClauses g
    expectSymbol ")"
    return { expr := .outside start .generator }
  else
    if let .starred fault _ := first.expr then
      failAt fault
    expectSymbol ")"
    return { first with inParens := true }

/-- The elements of a list or set after the first, and the closing symbol. -/
def elements (g : Grammar) (first : Expr) (closing : String) : Parser (List Expr) := do
  if ← eatSymbol "," then
    let (others, _) ←
      commaItems atExpression (return (← namedOf g.conditional .starred).expr)
    closeList atExpression closing
    return first :: others
  else
    expectSymbol closing
    return [first]

def listDisplay (g : Grammar) : Parser Expr := do
  let start ← here
  expectSymbol "["
  if ← eatSymbol "]" then
    return .list start []
  let first ← namedOf g.conditional .starred
  if ← atComprehension then
    comprehensionClauses g
    expectSymbol "]"
    return .outside start .comprehension
  else
    return .list start (← elements g first.expr "]")

def dictItem (g : Grammar) (start : Nat) : Parser (Expr × Expr) := do
  if ← eatSymbol "**" then
    return (.outside start .dictUnpacking, ← bitwiseOperand g)
  else
    let key ← g.conditional .plain
    expectSymbol ":"
    let value ← g.conditional .plain
    return (key.expr, value.expr)

/-- The rest of a dictionary after its first item, or of a comprehension of such items. -/
def dictItems (g : Grammar) (start : Nat) (first : Expr × Expr) : Parser Expr := do
  if ← atComprehension then
    comprehensionClauses g
    expectSymbol "\x7d"
    return .outside start .comprehension
  else if ← eatSymbol "," then
    let (others, _) ← commaItems atExpression (dictItem g start)
    closeList atExpression "\x7d"
    return .dict start (first :: others)
  else
    expectSymbol "\x7d"
    return .dict start [first]

/-- A dictionary or a set, or a comprehension of either. -/
def braceDisplay (g : Grammar) : Parser Expr := do
  let start ← here
  expectSymbol "\x7b"
  if ← eatSymbol "\x7d" then
    return .dict start []
  if ← atSymbol "**" then
    return ← dictItems g start (← dictItem g start)
  let first ← namedOf g.conditional .starred
  if ← atComprehension then
    comprehensionClauses g
    expectSymbol "\x7d"
    return .outside start .comprehension
  else if ← atSymbol ":" then
    unless first.inParens do
      match first.expr with
      | .starred fault _ => failAt fault
      | .outside fault .named => failAt fault
      | _ => pure ()
    advance
    let value ← g.conditional .plain
    dictItems g start (first.expr, value.expr)
  else
    discard <| elements g first.expr "\x7d"
    return .outside start .set

/-! ### Calls, attributes and subscripts -/

/-- An argument of a call. -/
inductive Argument where
  | positional (expr : Expr)
  /-- A generator without parentheses of its own. -/
  | generator (start : Nat)
  | keyword
  | unpacking

/-- The expression of an argument that is passed by place. -/
def Argument.expr? : Argument → Option Expr
  | .positional expr => some expr
  | .generator start => some (.outside start .generator)
  | .keyword => none
  | .unpacking => none

/-- Whether an argument is passed by name. -/
def Argument.isNamed : Argument → Bool
  | .positional _ => false
  | .generator _ => false
  | .keyword => true
  | .unpacking => true

def Argument.isUnpacking : Argument → Bool
  | .unpacking => true
  | _ => false

/-- Whether an expression is a star without parentheses. -/
def Parsed.isStarred (parsed : Parsed) : Bool :=
  match parsed.expr with
  | .starred _ _ => !parsed.inParens
  | _ => false

/-- An argument after the given ones, the last one first. Arguments by place come before those by
name, except that starred ones may also stand among keywords. -/
def argument (g : Grammar) (before : List Argument) : Parser Argument := do
  if ← eatSymbol "**" then
    discard <| g.conditional .plain
    return .unpacking
  let start ← here
  let parsed ← namedOf g.conditional .wideStarred
  let isGenerator ← atComprehension
  if isGenerator then
    comprehensionClauses g
  else if before.any (·.isUnpacking) && parsed.isStarred then
    failAt start
  if ← eatSymbol "=" then
    match isGenerator, parsed.expr with
    | false, .name _ _ =>
      discard <| g.conditional .plain
      return .keyword
    | _, _ => failAt start
  else
    if before.any (·.isNamed) && (isGenerator || !parsed.isStarred) then
      failAt start
    return if isGenerator then .generator start else .positional parsed.expr

/-- The arguments of a call after the given ones, the last one first, and whether a comma follows
the last. -/
def argumentsFrom (g : Grammar) : Nat → List Argument → Parser (List Argument × Bool)
  | 0, before => return (before, false)
  | bound + 1, before => do
    if ← atExpression then
      let next ← argument g before
      if ← eatSymbol "," then
        if ← atExpression then argumentsFrom g bound (next :: before)
        else return (next :: before, true)
      else
        return (next :: before, false)
    else
      return (before, false)

/-- The offset of the first generator without parentheses. -/
def bareGenerator? : List Argument → Option Nat
  | [] => none
  | .generator start :: _ => some start
  | _ :: rest => bareGenerator? rest

/-- The arguments of a call in parentheses. A generator without parentheses has to be the only
argument. -/
def arguments (g : Grammar) : Parser (List Argument) := do
  expectSymbol "("
  let (reversed, endsWithComma) ← argumentsFrom g (← read) []
  closeList atExpression ")"
  let given := reversed.reverse
  if endsWithComma || given.length > 1 then
    if let some fault := bareGenerator? given then
      failAt fault
  return given

/-- One index or slice of a subscript. -/
def sliceItem (g : Grammar) : Parser Expr := do
  let start ← here
  let atEnd : Parser Bool := return [.symbol ",", .symbol "]", .newline].contains (← kindHere)
  let lower ←
    if ← atExpression then pure (some (← namedOf g.conditional .wideStarred)) else pure none
  if let some index := lower then
    if ← atEnd then
      return index.expr
    unless index.inParens do
      match index.expr with
      | .starred fault _ => failAt fault
      | .outside fault .named => failAt fault
      | _ => pure ()
  expectSymbol ":"
  let upper ←
    if (← atEnd) || (← atSymbol ":") then pure none
    else pure (some (← g.conditional .plain).expr)
  let hasStep ←
    if ← eatSymbol ":" then
      if ← atEnd then
        pure false
      else
        discard <| g.conditional .plain
        pure true
    else
      pure false
  return .slice start (lower.map (·.expr)) upper hasStep

def subscriptIndex (g : Grammar) : Parser Expr := do
  expectSymbol "["
  if ← atSymbol "]" then
    failHere
  let start ← here
  let first ← sliceItem g
  if ← eatSymbol "," then
    let atItem : Parser Bool := return (← atExpression) || (← atSymbol ":")
    let (others, _) ← commaItems atItem (sliceItem g)
    closeList atItem "]"
    return .tuple start (first :: others)
  else
    expectSymbol "]"
    match first with
    | .starred _ _ => return .tuple start [first]
    | _ => return first

/-- The calls, subscripts and attributes after an expression that starts at `start`. What starts
with parentheses counts as standing in them. -/
def trailersFrom (g : Grammar) (start : Nat) : Nat → Parsed → Parser Parsed
  | 0, parsed => return parsed
  | bound + 1, parsed => do
    match ← kindHere with
    | .symbol "(" =>
      let given ← arguments g
      let args := given.filterMap (·.expr?)
      trailersFrom g start bound
        { parsed with expr := .call start parsed.expr args (given.any (·.isNamed)) }
    | .symbol "[" =>
      let index ← subscriptIndex g
      trailersFrom g start bound { parsed with expr := .subscript start parsed.expr index }
    | .symbol "." =>
      advance
      let (attrStart, attr) ← expectName
      trailersFrom g start bound { parsed with expr := .member start parsed.expr attr attrStart }
    | _ => return parsed

/-- A name, a literal, or something in brackets. -/
def atom (g : Grammar) : Parser Parsed := do
  let start ← here
  let leaf (expr : Expr) : Parser Parsed := do
    advance
    return { expr }
  match ← kindHere with
  | .name word => leaf (.name start word)
  | .int value => leaf (.int start value)
  | .float spelling => leaf (.float start spelling)
  | .imaginary => leaf (.imaginary start)
  | .keyword "True" => leaf (.bool start true)
  | .keyword "False" => leaf (.bool start false)
  | .keyword "None" => leaf (.none start)
  | .symbol "..." => leaf (.outside start .other)
  | .string _ | .bytes | .formatStart _ => return { expr := ← literals g }
  | .symbol "(" => group g
  | .symbol "[" => return { expr := ← listDisplay g }
  | .symbol "\x7b" => return { expr := ← braceDisplay g }
  | _ => failHere

/-! ### Operations -/

def yieldExpr (g : Grammar) : Parser Expr := do
  let start ← here
  expectKeyword "yield"
  if ← eatKeyword "from" then
    (← listOf g.conditional .plain).rejectBareTuple
  else if ← atExpression then
    discard <| listOf g.conditional .starred
  return .outside start .generator

def lambda (g : Grammar) : Parser Expr := do
  let start ← here
  expectKeyword "lambda"
  discard <| params g false
  expectSymbol ":"
  discard <| g.conditional .plain
  return .outside start .lambda

def starred (g : Grammar) (context : Context) : Parser Expr := do
  let start ← here
  expectSymbol "*"
  if context.hasWideStar then
    return .starred start (← g.conditional { context with allowsStar := false }).expr
  else
    return .starred start (← bitwiseOperand g)

/-- An operand, with the signs before it, where operators tighter than `level` are read. -/
def operand (g : Grammar) (level : Nat) (context : Context) : Parser Parsed := do
  let start ← here
  let signed (op : UnaryOp) (opLevel : Nat) (fits : Bool) : Parser Parsed := do
    advance
    let parsed ← g.binary opLevel context
    unless fits do
      failAt start
    return { expr := .unary start op parsed.expr }
  let signFits := level ≤ signLevel || level = powLevel
  match ← kindHere with
  | .keyword "not" => signed .not notLevel (level ≤ notLevel)
  | .symbol "-" => signed .minus signLevel signFits
  | .symbol "+" => signed .plus signLevel signFits
  | .symbol "~" => signed .invert signLevel signFits
  | .symbol "*" =>
    let expr ← starred g context
    if level > 0 || !context.allowsStar then
      failAt start
    return { expr }
  | .keyword "await" =>
    advance
    discard <| g.binary awaitLevel .plain
    if level ≥ awaitLevel then
      failAt start
    return { expr := .outside start .await }
  | .keyword "yield" =>
    let expr ← yieldExpr g
    if level > 0 || !context.allowsYield then
      failAt start
    return { expr }
  | .keyword "lambda" =>
    discard <| lambda g
    failAt start
  | _ => trailersFrom g start (← read) (← atom g)

/-- The further operands of `and` or `or`, after the first operator. -/
def boolOperands (g : Grammar) (op : BoolOp) (context : Context) : Parser (Expr × List Expr) := do
  let (word, level) := match op with
    | .and => ("and", andLevel)
    | .or => ("or", orLevel)
  let first ← g.binary level context
  let others ← many do
    if ← eatKeyword word then
      return some (← g.binary level context).expr
    else
      return none
  return (first.expr, others)

/-- The further comparisons of a chain. -/
def comparisons (g : Grammar) (context : Context) : Parser (List (CompareOp × Expr)) :=
  many do
    match ← operatorHere context with
    | some (.compare op, width) =>
      modify (·.drop width)
      return some (op, (← g.binary compareLevel context).expr)
    | _ => return none

/-- The operations that follow an operand that starts at `start`, where operators tighter than
`level` are read. What starts with parentheses counts as standing in them. -/
def operationsFrom (g : Grammar) (level : Nat) (context : Context) (start : Nat) :
    Nat → Parsed → Parser Parsed
  | 0, left => return left
  | bound + 1, left => do
    match ← operatorHere context with
    | none => return left
    | some (op, width) =>
      if op.stopsAt level then
        return left
      modify (·.drop width)
      let expr ← match op with
        | .bool op =>
          let (second, others) ← boolOperands g op context
          pure (.boolOp start op left.expr second others)
        | .compare op =>
          let right ← g.binary compareLevel context
          let others ← comparisons g context
          pure (.compare start left.expr op right.expr others)
        | .binary op =>
          let right ← g.binary op.level context
          pure (.binOp start left.expr op right.expr)
      operationsFrom g level context start bound { left with expr }

/-- An expression whose operators bind tighter than `level`. -/
def binary (g : Grammar) (level : Nat) (context : Context) : Parser Parsed := do
  let start ← here
  let left ← operand g level context
  operationsFrom g level context start (← read) left

/-- An expression without a comma or `:=` outside brackets. -/
def conditional (g : Grammar) (context : Context) : Parser Parsed := do
  if ← atKeyword "lambda" then
    return { expr := ← lambda g }
  let start ← here
  let body ← binary g 0 context
  if ← eatKeyword "if" then
    discard <| g.binary 0 .plain
    expectKeyword "else"
    discard <| g.conditional .plain
    return { expr := .outside start .conditional }
  else
    return body

/-- An expression that may be given a name by `:=`. -/
def namedExpr (g : Grammar) (context : Context) : Parser Parsed :=
  namedOf (conditional g) context

/-- An expression, or a tuple of expressions with commas between them. -/
def exprList (g : Grammar) (context : Context) : Parser Parsed :=
  listOf (conditional g) context

end Keystroke.Python
