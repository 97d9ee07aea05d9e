import Keystroke.Text.Identifier

/-!
# Words

A word is what a name is made of. It has at least one character, and only such as may stand inside
an identifier.
-/

namespace Keystroke

/-- A text with at least one character, all of which may stand inside an identifier. -/
def IsWord (text : String) : Prop :=
  text ≠ "" ∧ ∀ c ∈ text.toList, isIdentifierContinue c = true

structure Word where
  text : String
  isWord : IsWord text
deriving DecidableEq, Repr

end Keystroke
