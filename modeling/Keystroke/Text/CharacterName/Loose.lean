/-!
# Loose forms of names

The names of characters are compared loosely: without regard to case, blanks, underscores, and
hyphens between letters or digits.
-/

namespace Keystroke

/-- Whether a character in a name is passed over wherever it stands. -/
def isNameBlank (c : Char) : Bool :=
  c = ' ' || c = '_' || c = '\n' || c = '\t' || c = '\r' || c = '\x0c'

/-- What counts in a name after the character `before`. -/
def looseFormAfter : Option Char → List Char → List Char
  | _, [] => []
  | before, c :: rest =>
    let others := looseFormAfter (some c) rest
    if isNameBlank c then others
    else if c = '-' && before.any Char.isAlphanum && rest.head?.any Char.isAlphanum then others
    else c.toUpper :: others

/-- What counts in a name: no blanks, no underscores, no hyphens between letters or digits, and no
lower case. -/
def looseForm (name : List Char) : List Char :=
  looseFormAfter none name

/-- What follows the loose form of some words in the loose form of a name. -/
def afterWords? (words form : List Char) : Option (List Char) :=
  let words := looseForm words
  if words.isPrefixOf form then some (form.drop words.length) else none

end Keystroke
