import Keystroke.Calculator.Label
import Keystroke.Calculator.Register

/-!
# Instructions

A calculator program is a sequence of instructions, one to a line. An instruction is a number or
text to enter, a bare mnemonic, or a mnemonic with one operand. `Instr.text` writes the line as
the calculator lists it.
-/

namespace Keystroke

/-! ### Operands -/

inductive StackLevel where
  | x | y | z | t
deriving DecidableEq, Repr

def StackLevel.text : StackLevel → String
  | x => "X"
  | y => "Y"
  | z => "Z"
  | t => "T"

/-- What a storage instruction works on: a register, a stack level, or the variable whose name a
register holds. -/
inductive Operand where
  | register (target : Register)
  | stack (level : StackLevel)
  | indirect (holder : Register)
deriving DecidableEq, Repr

/-- How an instruction writes the operand. -/
def Operand.text : Operand → String
  | register target => target.text
  | stack level => "ST " ++ level.text
  | indirect holder => "IND " ++ holder.text

/-- What a flag instruction works on: a flag, or the flag whose number a stack level holds. -/
inductive FlagOperand where
  | number (n : Nat)
  | indirect (level : StackLevel)
deriving DecidableEq, Repr

/-- How an instruction writes the flag. -/
def FlagOperand.text : FlagOperand → String
  | number n => twoDigits n
  | indirect level => "IND ST " ++ level.text

/-! ### Mnemonics -/

/-- Instructions without an operand. -/
inductive Op where
  | add | sub | mul | div | mod | pow
  | and | or | xor | not
  | negate | integerPart | fractionPart | abs | sign | round | random
  | sqrt | sin | cos | tan | asin | acos | atan | ln | log | exp
  | rollDown | clearX | swap | clearStack
  | isZero | isNonzero | isNegative
  | xEqY | xNeY | xLtY | xGtY | xLeY | xGeY
  | dimensions | storeIndex | recallIndex | storeElement | recallElement | nextColumn
  | insertRow | deleteRow | getMatrix | putMatrix
  | newMatrix | invert | determinant | transpose | complex
  | clearDisplay | clearAlpha | viewAlpha | beep | prompt | pixel
  | stop | returns
deriving DecidableEq, Repr

/-- The mnemonic of an instruction without an operand. -/
def Op.mnemonic : Op → String
  | add => "+"
  | sub => "-"
  | mul => "×"
  | div => "÷"
  | mod => "MOD"
  | pow => "Y↑X"
  | and => "AND"
  | or => "OR"
  | xor => "XOR"
  | not => "NOT"
  | negate => "+/-"
  | integerPart => "IP"
  | fractionPart => "FP"
  | abs => "ABS"
  | sign => "SIGN"
  | round => "RND"
  | random => "RAN"
  | sqrt => "SQRT"
  | sin => "SIN"
  | cos => "COS"
  | tan => "TAN"
  | asin => "ASIN"
  | acos => "ACOS"
  | atan => "ATAN"
  | ln => "LN"
  | log => "LOG"
  | exp => "E↑X"
  | rollDown => "RDN"
  | clearX => "CLX"
  | swap => "X<>Y"
  | clearStack => "CLST"
  | isZero => "X=0?"
  | isNonzero => "X≠0?"
  | isNegative => "X<0?"
  | xEqY => "X=Y?"
  | xNeY => "X≠Y?"
  | xLtY => "X<Y?"
  | xGtY => "X>Y?"
  | xLeY => "X≤Y?"
  | xGeY => "X≥Y?"
  | dimensions => "DIM?"
  | storeIndex => "STOIJ"
  | recallIndex => "RCLIJ"
  | storeElement => "STOEL"
  | recallElement => "RCLEL"
  | nextColumn => "J+"
  | insertRow => "INSR"
  | deleteRow => "DELR"
  | getMatrix => "GETM"
  | putMatrix => "PUTM"
  | newMatrix => "NEWMAT"
  | invert => "INVRT"
  | determinant => "DET"
  | transpose => "TRANS"
  | complex => "COMPLEX"
  | clearDisplay => "CLLCD"
  | clearAlpha => "CLA"
  | viewAlpha => "AVIEW"
  | beep => "BEEP"
  | prompt => "PROMPT"
  | pixel => "PIXEL"
  | stop => "STOP"
  | returns => "RTN"

/-- Instructions on a register, a stack level or an indirectly named variable. -/
inductive MemoryOp where
  | store | storeAdd | storeSub | storeMul | storeDiv | storeAlpha
  | recallValue | recallAdd | recallAlpha | exchange
  | stepCounter | view | input | index | clearVariable | dimension
deriving DecidableEq, Repr

def MemoryOp.mnemonic : MemoryOp → String
  | store => "STO"
  | storeAdd => "STO+"
  | storeSub => "STO-"
  | storeMul => "STO×"
  | storeDiv => "STO÷"
  | storeAlpha => "ASTO"
  | recallValue => "RCL"
  | recallAdd => "RCL+"
  | recallAlpha => "ARCL"
  | exchange => "X<>"
  | stepCounter => "ISG"
  | view => "VIEW"
  | input => "INPUT"
  | index => "INDEX"
  | clearVariable => "CLV"
  | dimension => "DIM"

/-- Instructions on a flag. -/
inductive FlagOp where
  | set | clear | isSet | isClear | isClearThenClear
deriving DecidableEq, Repr

def FlagOp.mnemonic : FlagOp → String
  | set => "SF"
  | clear => "CF"
  | isSet => "FS?"
  | isClear => "FC?"
  | isClearThenClear => "FC?C"

/-- Instructions whose operand is a plain number. -/
inductive Setting where
  | fix | sci | eng | tone
deriving DecidableEq, Repr

/-- The mnemonic of an instruction whose operand is a plain number. -/
def Setting.mnemonic : Setting → String
  | fix => "FIX"
  | sci => "SCI"
  | eng => "ENG"
  | tone => "TONE"

/-! ### Instructions -/

/-- A line of a calculator program. -/
inductive Instr where
  | int (value : Nat)
  /-- Enter a number with a point or an exponent, as it was spelled. -/
  | decimal (spelling : String)
  | alpha (text : String)
  /-- Add text to the alpha register. -/
  | alphaAppend (text : String)
  | op (o : Op)
  | memory (o : MemoryOp) (operand : Operand)
  | flag (o : FlagOp) (operand : FlagOperand)
  | setting (o : Setting) (n : Nat)
  | lbl (label : Label)
  | gto (n : Nat)
  | xeq (label : Label)
  /-- A line given as text and not read any further. -/
  | verbatim (text : String)
deriving DecidableEq, Repr

namespace Instr

/-- The mark that makes text add to the alpha register. -/
def appendMark : Char := '├'

/-- The line as the calculator lists it. -/
def text : Instr → String
  | int value => Keystroke.decimal value
  | decimal spelling => spelling
  | alpha text => "\"" ++ text ++ "\""
  | alphaAppend text => String.singleton appendMark ++ "\"" ++ text ++ "\""
  | op o => o.mnemonic
  | memory o operand => o.mnemonic ++ " " ++ operand.text
  | flag o operand => o.mnemonic ++ " " ++ operand.text
  | setting o n => o.mnemonic ++ " " ++ twoDigits n
  | lbl label => "LBL " ++ label.text
  | gto n => "GTO " ++ twoDigits n
  | xeq label => "XEQ " ++ label.text
  | verbatim text => text

def store (register : Register) : Instr :=
  memory .store (.register register)

def storeAlpha (register : Register) : Instr :=
  memory .storeAlpha (.register register)

def recallValue (register : Register) : Instr :=
  memory .recallValue (.register register)

/-- Make a matrix variable the indexed one. -/
def index (register : Register) : Instr :=
  memory .index (.register register)

/-- The text between `opening` and a closing quote, when `cs` has that form. -/
def quoted? (opening cs : List Char) : Option String :=
  if opening.isPrefixOf cs then
    match (cs.drop opening.length).reverse with
    | '"' :: inner => some (String.ofList inner.reverse)
    | _ => none
  else
    none

/-- Reads a line of text. Calls and labels with a quoted name are recognised; every other line is
kept as it stands. -/
def ofText (line : String) : Instr :=
  match quoted? "XEQ \"".toList line.toList with
  | some name => xeq (.global name)
  | none =>
    match quoted? "LBL \"".toList line.toList with
    | some name => lbl (.global name)
    | none => verbatim line

end Instr

end Keystroke
