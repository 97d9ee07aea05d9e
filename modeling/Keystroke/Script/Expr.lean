import Keystroke.Python.Operator
import Keystroke.Source.SourceText

/-!
# Expressions of a script

A script is the part of a source text that the calculator can run, and nothing else. Each node
carries the position at which it starts, so that a fault can be reported.
-/

namespace Keystroke.Script

open Python (BinaryOp BoolOp CompareOp)

/-- A name in the source, and where it stands. -/
structure Ident where
  start : Position
  name : String
deriving DecidableEq, Repr

inductive Expr where
  | int (start : Position) (value : Nat)
  /-- A number with a point or an exponent, in the calculator's spelling. -/
  | float (start : Position) (spelling : String)
  | string (start : Position) (text : String)
  | bool (start : Position) (value : Bool)
  | none (start : Position)
  | name (id : Ident)
  | binary (start : Position) (left : Expr) (op : BinaryOp) (right : Expr)
  | boolean (start : Position) (op : BoolOp) (first : Expr) (others : List Expr)
  | not (start : Position) (operand : Expr)
  | negate (start : Position) (operand : Expr)
  | invert (start : Position) (operand : Expr)
  /-- A chain of comparisons, each between an operand and the one before it. -/
  | compare (start : Position) (left : Expr) (comparisons : List (CompareOp × Expr))
  | call (start : Position) (callee : Ident) (args : List Expr)
  | method (start : Position) (object attr : Ident) (args : List Expr)
  | subscript (start : Position) (object : Ident) (index : Expr)
  | slice (start : Position) (lower upper : Option Expr)
  | tuple (start : Position) (elements : List Expr)
  | list (start : Position) (elements : List Expr)
  | dict (start : Position) (items : List (Expr × Expr))

namespace Expr

def start : Expr → Position
  | int start _ => start
  | float start _ => start
  | string start _ => start
  | bool start _ => start
  | none start => start
  | name id => id.start
  | binary start _ _ _ => start
  | boolean start _ _ _ => start
  | not start _ => start
  | negate start _ => start
  | invert start _ => start
  | compare start _ _ => start
  | call start _ _ => start
  | method start _ _ _ => start
  | subscript start _ _ => start
  | slice start _ _ => start
  | tuple start _ => start
  | list start _ => start
  | dict start _ => start

/-- Whether a condition is a literal that always holds. -/
def isConstantTrue : Expr → Bool
  | bool _ value => value
  | int _ value => value != 0
  | _ => false

/-- The value of a whole number literal, with the signs before it. Truth values are one and
zero. -/
def intLiteral? : Expr → Option Int
  | int _ value => some value
  | bool _ value => some (if value then 1 else 0)
  | negate _ operand => (intLiteral? operand).map fun value => -value
  | _ => Option.none

def isSlice : Expr → Bool
  | slice _ _ _ => true
  | _ => false

/-- Whether a subscript selects a part of its object: a slice, or a tuple with a slice. -/
def selectsPart : Expr → Bool
  | slice _ _ _ => true
  | tuple _ elements => elements.any isSlice
  | _ => false

end Expr

end Keystroke.Script
