import Keystroke.Script.Expr
import Keystroke.Source.Comment

/-!
# Statements of a script
-/

namespace Keystroke.Script

open Python (BinaryOp)

/-- A function without its body. -/
structure FunctionHeader where
  name : Ident
  params : List Ident
  /-- The text of the line on which the function starts. -/
  signature : String
  /-- The comment on that line. -/
  comment : Option String

/-- Whether a function asks for a global label. -/
def FunctionHeader.isExported (header : FunctionHeader) : Bool :=
  header.comment.any asksForExport

/-- A statement. An assignment has at least one target. -/
inductive Stmt where
  | pass (start : Position)
  | expression (start : Position) (value : Expr)
  | returns (start : Position) (value : Option Expr)
  | assign (start : Position) (target : Expr) (others : List Expr) (value : Expr)
  | augmented (start : Position) (target : Expr) (op : BinaryOp) (value : Expr)
  | ifElse (start : Position) (test : Expr) (body orElse : List Stmt)
  | whileLoop (start : Position) (test : Expr) (body : List Stmt)
  | forLoop (start : Position) (target : Ident) (iterable : Expr) (body : List Stmt)
  | breaks (start : Position)
  | continues (start : Position)
  | assertion (start : Position) (test : Expr)
  | functionDef (start : Position) (header : FunctionHeader) (body : List Stmt)

namespace Stmt

/-- The position at which a statement starts. -/
def start : Stmt → Position
  | pass start => start
  | expression start _ => start
  | returns start _ => start
  | assign start _ _ _ => start
  | augmented start _ _ _ => start
  | ifElse start _ _ _ => start
  | whileLoop start _ _ => start
  | forLoop start _ _ _ => start
  | breaks start => start
  | continues start => start
  | assertion start _ => start
  | functionDef start _ _ => start

/-- The name of the function that declares the label of the code outside functions. -/
def entryCallee : String := "LBL"

/-- The call by which a statement declares the label of the code outside functions: its position and
its arguments. -/
def entryDeclaration? : Stmt → Option (Position × List Expr)
  | expression _ (.call start callee args) =>
    if callee.name = entryCallee then some (start, args) else none
  | _ => none

end Stmt

end Keystroke.Script
