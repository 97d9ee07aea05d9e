import Keystroke.Text.Decimal

/-!
# Storage registers

The calculator stores a value in a numbered register or in a named variable. Instructions
write the first as two digits and the second in quotes.
-/

namespace Keystroke

/-- Longest name that the calculator accepts for a variable or a label. -/
def maxNameLength : Nat := 7

/-- A place where the calculator stores a value. -/
inductive Register where
  | numbered (number : Nat)
  | named (name : String)
deriving DecidableEq, Repr

namespace Register

/-- How an instruction refers to the register. -/
def text : Register → String
  | numbered number => twoDigits number
  | named name => "\"" ++ name ++ "\""

/-- The name of a named variable. -/
def name? : Register → Option String
  | numbered _ => none
  | named name => some name

def isNamed : Register → Bool
  | numbered _ => false
  | named _ => true

/-- The name of a named variable, and the empty text for a numbered register. -/
def nameOrEmpty (register : Register) : String :=
  register.name?.getD ""

end Register

end Keystroke
