import Keystroke.Calculator.Instr

/-!
# Functions of the calculator

The names that a script can call without defining them: functions with code of their own, and
instructions of the calculator.
-/

namespace Keystroke

/-- Functions with code of their own. -/
inductive Builtin where
  | len
  | print
  | int
  | abs
  | range
  | flagSet
  | flagClear
  /-- The declaration of the label of the code outside functions. -/
  | entryLabel
deriving DecidableEq, Repr

namespace Builtin

/-- The name by which a function is called. -/
def name : Builtin → String
  | len => "len"
  | print => "print"
  | int => "int"
  | abs => "abs"
  | range => "range"
  | flagSet => "FS"
  | flagClear => "FC"
  | entryLabel => "LBL"

/-- All functions with code of their own. -/
def all : List Builtin :=
  [len, print, int, abs, range, flagSet, flagClear, entryLabel]

/-- The function with a name. -/
def ofName? (name : String) : Option Builtin :=
  all.find? (·.name == name)

end Builtin

/-- Instructions whose operand is a literal of two digits. -/
inductive DigitsOp where
  | setting (s : Setting)
  | flag (f : FlagOp)
deriving DecidableEq, Repr

namespace DigitsOp

/-- The mnemonic of the instruction. -/
def mnemonic : DigitsOp → String
  | setting s => s.mnemonic
  | flag f => f.mnemonic

/-- The instruction with its operand. -/
def instr : DigitsOp → Nat → Instr
  | setting s, n => .setting s n
  | flag f, n => .flag f (.number n)

end DigitsOp

/-- Instructions that a script can call by name. -/
inductive Primitive where
  /-- Takes arguments from the stack, where they stand in source order or in reverse. -/
  | stack (o : Op) (arity : Nat) (reversed : Bool)
  /-- Takes a literal of two digits. -/
  | digits (o : DigitsOp)
  /-- Takes a variable. -/
  | onVariable (o : MemoryOp)
deriving DecidableEq, Repr

namespace Primitive

/-- The instructions that take no argument. -/
def nullaryOps : List Op :=
  [.clearDisplay, .beep, .viewAlpha, .prompt, .stop, .clearStack, .clearAlpha, .random,
    .recallIndex, .recallElement, .insertRow, .deleteRow]

/-- The instructions that take one argument. -/
def unaryOps : List Op :=
  [.invert, .determinant, .transpose, .abs, .sqrt, .sin, .cos, .tan, .asin, .acos, .atan, .ln, .log,
    .exp, .integerPart, .fractionPart, .round, .sign, .storeElement, .putMatrix]

/-- The instructions that take two arguments. -/
def binaryOps : List Op :=
  [.newMatrix, .complex, .mod, .storeIndex, .getMatrix]

/-- The instructions that take two arguments in reverse: a pixel has its row in Y and its column in
X. -/
def reversedOps : List Op :=
  [.pixel]

/-- The instructions that take a literal of two digits. -/
def digitsOps : List DigitsOp :=
  [.setting .fix, .setting .sci, .setting .eng, .setting .tone, .flag .set, .flag .clear]

/-- The instructions that take a variable. -/
def variableOps : List MemoryOp :=
  [.index, .view, .input, .clearVariable, .recallAlpha]

/-- All instructions that a script can call. -/
def all : List Primitive :=
  nullaryOps.map (.stack · 0 false) ++ unaryOps.map (.stack · 1 false) ++
    binaryOps.map (.stack · 2 false) ++ reversedOps.map (.stack · 2 true) ++
    digitsOps.map .digits ++ variableOps.map .onVariable

/-- The mnemonic of an instruction. -/
def mnemonic : Primitive → String
  | stack o _ _ => o.mnemonic
  | digits o => o.mnemonic
  | onVariable o => o.mnemonic

/-- The name by which an instruction is called: its mnemonic, where that is a name. -/
def name (primitive : Primitive) : String :=
  match primitive with
  | stack .exp _ _ => "EXP"
  | _ => primitive.mnemonic

/-- The instruction with a name. -/
def ofName? (name : String) : Option Primitive :=
  all.find? (·.name == name)

/-- Whether an instruction leaves a matrix in X. -/
def returnsMatrix : Primitive → Bool
  | stack .newMatrix _ _ => true
  | stack .invert _ _ => true
  | stack .transpose _ _ => true
  | stack .getMatrix _ _ => true
  | _ => false

end Primitive

end Keystroke
