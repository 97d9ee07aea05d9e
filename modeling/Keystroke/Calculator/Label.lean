import Keystroke.Text.Decimal

/-!
# Labels

A label marks a place in a program. Global labels are quoted names that the keyboard can reach;
local labels are single letters or two-digit numbers.
-/

namespace Keystroke

/-- A label of the calculator. -/
inductive Label where
  | global (name : String)
  | letter (c : Char)
  | number (n : Nat)
deriving DecidableEq, Repr

namespace Label

/-- How an instruction refers to the label. -/
def text : Label → String
  | global name => "\"" ++ name ++ "\""
  | letter c => String.singleton c
  | number n => twoDigits n

/-- Whether the label is a quoted name. -/
def isGlobal : Label → Bool
  | global _ => true
  | letter _ => false
  | number _ => false

end Label

end Keystroke
