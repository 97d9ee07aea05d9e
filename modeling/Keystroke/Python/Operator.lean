/-!
# Operators

The operators of Python expressions, with the signs that they are written with.
-/

namespace Keystroke.Python

/-- Operators between two operands that compute a value. -/
inductive BinaryOp where
  | add | sub | mul | matMul | div | mod | pow | shiftLeft | shiftRight | bitOr | bitXor | bitAnd
  | floorDiv
deriving DecidableEq, Repr

/-- The sign of an operator. -/
def BinaryOp.sign : BinaryOp → String
  | .add => "+"
  | .sub => "-"
  | .mul => "*"
  | .matMul => "@"
  | .div => "/"
  | .mod => "%"
  | .pow => "**"
  | .shiftLeft => "<<"
  | .shiftRight => ">>"
  | .bitOr => "|"
  | .bitXor => "^"
  | .bitAnd => "&"
  | .floorDiv => "//"

/-- All operators between two operands that compute a value. -/
def BinaryOp.all : List BinaryOp :=
  [.add, .sub, .mul, .matMul, .div, .mod, .pow, .shiftLeft, .shiftRight, .bitOr, .bitXor, .bitAnd,
    .floorDiv]

/-- The operator with a sign. -/
def BinaryOp.ofSign? (sign : String) : Option BinaryOp :=
  BinaryOp.all.find? fun op => op.sign == sign

/-- The operator with which an assignment sign combines. -/
def BinaryOp.ofAssignSign? (sign : String) : Option BinaryOp :=
  BinaryOp.all.find? fun op => op.sign ++ "=" == sign

/-- Operators that stop at the first operand that decides them. -/
inductive BoolOp where
  | and | or
deriving DecidableEq, Repr

/-- Operators before one operand. -/
inductive UnaryOp where
  | not | minus | plus | invert
deriving DecidableEq, Repr

inductive CompareOp where
  | eq | notEq | lt | le | gt | ge | is | isNot | isIn | notIn
deriving DecidableEq, Repr

def CompareOp.sign : CompareOp → String
  | .eq => "=="
  | .notEq => "!="
  | .lt => "<"
  | .le => "<="
  | .gt => ">"
  | .ge => ">="
  | .is => "is"
  | .isNot => "is not"
  | .isIn => "in"
  | .notIn => "not in"

end Keystroke.Python
