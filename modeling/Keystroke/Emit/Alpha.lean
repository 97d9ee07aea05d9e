import Keystroke.Calculator.Instr

/-!
# Text in the alpha register

One line can enter a limited number of characters. A longer text is entered in pieces, each but the
first of which is added to what is there.
-/

namespace Keystroke

/-- How many characters one line can enter. -/
def alphaWidth : Nat := 15

/-- Puts a character in front of the first of some pieces. -/
def consPiece (c : Char) : List (List Char) → List (List Char)
  | [] => [[c]]
  | piece :: pieces => (c :: piece) :: pieces

/-- A text in pieces of `width` characters, where the first piece has room for `room`. Only the
empty text has an empty piece, unless there is no room. -/
def piecesFrom (width : Nat) : Nat → List Char → List (List Char)
  | _, [] => [[]]
  | 0, c :: rest => [] :: consPiece c (piecesFrom width (width - 1) rest)
  | room + 1, c :: rest => consPiece c (piecesFrom width room rest)

def alphaPieces (text : String) : List String :=
  (piecesFrom alphaWidth alphaWidth text.toList).map String.ofList

def alphaLines (text : String) : List Instr :=
  match alphaPieces text with
  | [] => []
  | piece :: pieces => .alpha piece :: pieces.map .alphaAppend

end Keystroke
