import Keystroke.Fault
import Keystroke.Script.Stmt
import Keystroke.Source.SourceText

/-!
# From syntax trees to scripts

A syntax tree is checked from its start to its end and turned into a script. Imports and statements
that are only a text are dropped, an annotation without a value does nothing, and a plus sign
vanishes. After the first condition and block of an `if`, its other clauses are checked from the
last to the first.
-/

namespace Keystroke.Script

/-- A step of the check. -/
abbrev Check := Except CompileError

/-- A construct outside the language. -/
def outside {α : Type} (fault : SubsetFault) (start : Position) : Check α :=
  .error ⟨.subset fault, start⟩

/-- The largest whole number that can be written in a script. -/
def maxInt : Nat := 0x7fffffffffffffff

/-- The calculator's spelling of a number: a capital exponent mark, and a digit before the
point. -/
def calculatorSpelling (spelling : String) : String :=
  let digits := spelling.toList.map fun c => if c = 'e' then 'E' else c
  match digits with
  | '.' :: _ => String.ofList ('0' :: digits)
  | _ => String.ofList digits

section

-- where in the source text an offset lies
variable (position : Nat → Position)

def checkName : Python.Expr → Check Ident
  | .name start word => .ok ⟨position start, word.text⟩
  | expr => outside .notName (position expr.start)

mutual

/-- The expression of a script for a syntax tree. -/
def checkExpr : Python.Expr → Check Expr
  | .name start word => .ok (.name ⟨position start, word.text⟩)
  | .int start value =>
    if value ≤ maxInt then .ok (.int (position start) value)
    else outside .largeInteger (position start)
  | .float start spelling => .ok (.float (position start) (calculatorSpelling spelling.text))
  | .imaginary start => outside .imaginary (position start)
  | .string start value => .ok (.string (position start) value)
  | .bool start value => .ok (.bool (position start) value)
  | .none start => .ok (.none (position start))
  | .boolOp start op first second others => do
    return .boolean (position start) op (← checkExpr first)
      ((← checkExpr second) :: (← checkExprs others))
  | .binOp start left op right => do
    return .binary (position start) (← checkExpr left) op (← checkExpr right)
  | .unary start op operand => do
    let operand ← checkExpr operand
    match op with
    | .not => return .not (position start) operand
    | .minus => return .negate (position start) operand
    | .invert => return .invert (position start) operand
    | .plus => return operand
  | .compare start left op right others => do
    return .compare (position start) (← checkExpr left)
      ((op, ← checkExpr right) :: (← checkComparisons others))
  | .call start callee args hasKeywords =>
    if hasKeywords then
      outside .keywordArguments (position start)
    else do
      let args ← checkExprs args
      match callee with
      | .name calleeStart word =>
        return .call (position start) ⟨position calleeStart, word.text⟩ args
      | .member _ value attr attrStart =>
        return .method (position start) (← checkName position value)
          ⟨position attrStart, attr.text⟩ args
      | _ => outside .computedCallee (position start)
  | .member start _ _ _ => outside .memberAccess (position start)
  | .subscript start value index => do
    return .subscript (position start) (← checkName position value) (← checkExpr index)
  | .slice start lower upper hasStep =>
    if hasStep then outside .sliceStep (position start)
    else do return .slice (position start) (← checkOptional lower) (← checkOptional upper)
  | .list start elements => do return .list (position start) (← checkExprs elements)
  | .tuple start elements => do return .tuple (position start) (← checkExprs elements)
  | .dict start items => do return .dict (position start) (← checkItems items)
  | .starred start _ => outside .starred (position start)
  | .outside start what => outside (.expression what) (position start)

/-- The expressions of a script for syntax trees, in order. -/
def checkExprs : List Python.Expr → Check (List Expr)
  | [] => .ok []
  | expr :: rest => do return (← checkExpr expr) :: (← checkExprs rest)

/-- The comparisons of a chain. -/
def checkComparisons :
    List (Python.CompareOp × Python.Expr) → Check (List (Python.CompareOp × Expr))
  | [] => .ok []
  | (op, right) :: rest => do return (op, ← checkExpr right) :: (← checkComparisons rest)

/-- The items of a dictionary. -/
def checkItems : List (Python.Expr × Python.Expr) → Check (List (Expr × Expr))
  | [] => .ok []
  | (key, value) :: rest => do
    return (← checkExpr key, ← checkExpr value) :: (← checkItems rest)

/-- An expression that may be left out. -/
def checkOptional : Option Python.Expr → Check (Option Expr)
  | none => .ok none
  | some expr => do return some (← checkExpr expr)

end

/-- The plain parameters of a function. -/
def checkParams : List Python.Param → Check (List Ident)
  | [] => .ok []
  | param :: rest =>
    if param.hasDefault then outside (.defaultValue param.name.text) (position param.start)
    else do return ⟨position param.start, param.name.text⟩ :: (← checkParams rest)

end

section

variable (source : SourceText)

def checkHeader (start : Position) (header : Python.FunctionHeader) :
    Check FunctionHeader :=
  if header.isAsync then outside .asyncFunction start
  else if header.isDecorated then outside .decorators start
  else if header.params.hasCollector then outside .collectors start
  else if header.params.hasRestricted then outside .restrictedParams start
  else do
    let params ← checkParams source.position header.params.plain
    let line := source.lineText start.line.toNat
    return {
      name := ⟨source.position header.nameStart, header.name.text⟩
      params
      signature := trim line
      comment := lineComment? line }

mutual

/-- The statement of a script for a syntax tree, if one is left of it. -/
def checkStmt : Python.Stmt → Check (Option Stmt)
  | .functionDef start header body => do
    let header ← checkHeader source (source.position start) header
    return some (.functionDef (source.position start) header (← checkStmts body))
  | .returns start value => do
    return some (.returns (source.position start) (← checkOptional source.position value))
  | .assign start target others value => do
    let target ← checkExpr source.position target
    let others ← checkExprs source.position others
    return some (.assign (source.position start) target others (← checkExpr source.position value))
  | .annotated start target value =>
    match value with
    | some value => do
      let target ← checkExpr source.position target
      return some (.assign (source.position start) target [] (← checkExpr source.position value))
    | none => .ok (some (.pass (source.position start)))
  | .augmented start target op value => do
    let target ← checkExpr source.position target
    return some (.augmented (source.position start) target op (← checkExpr source.position value))
  | .forLoop start isAsync hasElse target iterable body =>
    if isAsync then outside .asyncFor (source.position start)
    else if hasElse then outside .forElse (source.position start)
    else do
      let target ← checkName source.position target
      let iterable ← checkExpr source.position iterable
      return some (.forLoop (source.position start) target iterable (← checkStmts body))
  | .whileLoop start hasElse test body =>
    if hasElse then outside .whileElse (source.position start)
    else do
      let test ← checkExpr source.position test
      return some (.whileLoop (source.position start) test (← checkStmts body))
  | .ifElse start isClause test body orElse =>
    if isClause then do
      let orElse ← checkStmts orElse
      let test ← checkExpr source.position test
      return some (.ifElse (source.position start) test (← checkStmts body) orElse)
    else do
      let test ← checkExpr source.position test
      let body ← checkStmts body
      return some (.ifElse (source.position start) test body (← checkStmts orElse))
  | .assertion start test => do
    return some (.assertion (source.position start) (← checkExpr source.position test))
  | .expression start value =>
    match value with
    | .string _ _ => .ok none
    | _ => do return some (.expression (source.position start) (← checkExpr source.position value))
  | .imports _ => .ok none
  | .pass start => .ok (some (.pass (source.position start)))
  | .breaks start => .ok (some (.breaks (source.position start)))
  | .continues start => .ok (some (.continues (source.position start)))
  | .outside start what => outside (.statement what) (source.position start)

/-- The statements of a script for syntax trees, in order. -/
def checkStmts : List Python.Stmt → Check (List Stmt)
  | [] => .ok []
  | stmt :: rest => do
    let checked ← checkStmt stmt
    let others ← checkStmts rest
    match checked with
    | some stmt => return stmt :: others
    | none => return others

end

end

end Keystroke.Script
