import Keystroke.Text.CodePointSet

/-!
# Blank characters

The code points with the Unicode property White_Space, and trimming by it.
-/

namespace Keystroke

/-- The code points with the property White_Space. -/
def blankSet : CodePointSet where
  flips :=
  [0x9, 0xE, 0x20, 0x21, 0x85, 0x86, 0xA0, 0xA1, 0x1680, 0x1681, 0x2000, 0x200B, 0x2028, 0x202A,
   0x202F, 0x2030, 0x205F, 0x2060, 0x3000, 0x3001]

/-- Whether a character is white space in the sense of the property White_Space. -/
def isBlank (c : Char) : Bool :=
  blankSet.contains c

/-- The characters without the blanks at either end. -/
def trimChars (cs : List Char) : List Char :=
  ((cs.dropWhile isBlank).reverse.dropWhile isBlank).reverse

/-- The text without the blanks at either end. -/
def trim (s : String) : String :=
  String.ofList (trimChars s.toList)

end Keystroke
