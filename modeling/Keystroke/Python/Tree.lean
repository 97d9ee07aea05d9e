import Keystroke.Python.Operator
import Keystroke.Python.Token

/-!
# Syntax trees of Python source

A tree keeps what the calculator can run. Every other construct of the language is a leaf that says
what it is. Each node carries the byte offset at which it starts.
-/

namespace Keystroke.Python

/-- Expressions that have no place in a calculator program. -/
inductive OutsideExpr where
  | lambda
  | comprehension
  | generator
  | await
  | formatted
  | set
  | named
  | conditional
  | bytes
  /-- The missing key of a dictionary item that unpacks another dictionary. -/
  | dictUnpacking
  /-- Ellipses and template literals. -/
  | other
deriving DecidableEq, Repr

inductive Expr where
  | name (start : Nat) (word : Word)
  | int (start : Nat) (value : Nat)
  | float (start : Nat) (spelling : Numeral)
  | imaginary (start : Nat)
  | string (start : Nat) (value : String)
  | bool (start : Nat) (value : Bool)
  | none (start : Nat)
  | boolOp (start : Nat) (op : BoolOp) (first second : Expr) (others : List Expr)
  | binOp (start : Nat) (left : Expr) (op : BinaryOp) (right : Expr)
  | unary (start : Nat) (op : UnaryOp) (operand : Expr)
  | compare (start : Nat) (left : Expr) (op : CompareOp) (right : Expr)
      (others : List (CompareOp × Expr))
  | call (start : Nat) (callee : Expr) (args : List Expr) (hasKeywords : Bool)
  | member (start : Nat) (value : Expr) (attr : Word) (attrStart : Nat)
  | subscript (start : Nat) (value index : Expr)
  | slice (start : Nat) (lower upper : Option Expr) (hasStep : Bool)
  | list (start : Nat) (elements : List Expr)
  | tuple (start : Nat) (elements : List Expr)
  | dict (start : Nat) (items : List (Expr × Expr))
  | starred (start : Nat) (operand : Expr)
  | outside (start : Nat) (what : OutsideExpr)

def Expr.start : Expr → Nat
  | .name start _ => start
  | .int start _ => start
  | .float start _ => start
  | .imaginary start => start
  | .string start _ => start
  | .bool start _ => start
  | .none start => start
  | .boolOp start _ _ _ _ => start
  | .binOp start _ _ _ => start
  | .unary start _ _ => start
  | .compare start _ _ _ _ => start
  | .call start _ _ _ => start
  | .member start _ _ _ => start
  | .subscript start _ _ => start
  | .slice start _ _ _ => start
  | .list start _ => start
  | .tuple start _ => start
  | .dict start _ => start
  | .starred start _ => start
  | .outside start _ => start

/-- Statements that have no place in a calculator program. -/
inductive OutsideStmt where
  | classDef
  | tryBlock
  | withBlock
  | matchBlock
  | raise
  | delete
  | globals
  | nonlocals
  | typeAlias
deriving DecidableEq, Repr

/-- A parameter that may be passed by place and by name. -/
structure Param where
  start : Nat
  name : Word
  hasDefault : Bool
deriving DecidableEq, Repr

/-- The parameters of a function. -/
structure Params where
  plain : List Param
  hasCollector : Bool
  /-- Whether some parameter is passed by place only or by name only. -/
  hasRestricted : Bool
deriving DecidableEq, Repr

/-- A function without its body. -/
structure FunctionHeader where
  isAsync : Bool
  isDecorated : Bool
  nameStart : Nat
  name : Word
  params : Params
deriving DecidableEq, Repr

/-- Statements. -/
inductive Stmt where
  | functionDef (start : Nat) (header : FunctionHeader) (body : List Stmt)
  | returns (start : Nat) (value : Option Expr)
  | assign (start : Nat) (target : Expr) (others : List Expr) (value : Expr)
  | annotated (start : Nat) (target : Expr) (value : Option Expr)
  | augmented (start : Nat) (target : Expr) (op : BinaryOp) (value : Expr)
  | forLoop (start : Nat) (isAsync hasElse : Bool) (target iterable : Expr) (body : List Stmt)
  | whileLoop (start : Nat) (hasElse : Bool) (test : Expr) (body : List Stmt)
  /-- A condition, or a further clause of the condition before it. -/
  | ifElse (start : Nat) (isClause : Bool) (test : Expr) (body orElse : List Stmt)
  | assertion (start : Nat) (test : Expr)
  | expression (start : Nat) (value : Expr)
  | imports (start : Nat)
  | pass (start : Nat)
  | breaks (start : Nat)
  | continues (start : Nat)
  | outside (start : Nat) (what : OutsideStmt)

end Keystroke.Python
