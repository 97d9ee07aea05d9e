import Keystroke.Text.CodePointSet
import Keystroke.Text.Uppercase

/-!
# Lowercase characters

The code points with the Unicode property Lowercase, which holds of lowercase letters and of
the ordinals, superscripts and circled letters that look like them. Those with an upper case of one
character are told by that.
-/

namespace Keystroke

/-- The code points with the property Lowercase whose upper case is not one other character. -/
def lowercaseSet : CodePointSet where
  flips := placesFrom 0
    [170,1,15,1,36,1,88,1,16,1,67,1,28,2,14,1,3,1,49,1,48,1,18,6,27,1,2,1,1,1,2,3,2,1,4,1,5,2,1,1,2,
     2,1,7,1,2,1,1,2,3,6,5,1,1,2,7,2,26,7,2,30,5,149,1,21,1,31,1,75,1,355,1,38,2,2931,1,3075,121,1,
     3,1,16,1,49,214,5,1,2,1,1,176,1,1,1,1,1,1,1,41,8,8,8,8,8,10,3,1,2,10,3,1,2,10,2,2,2,10,3,1,2,
     10,3,1,2,121,1,13,1,16,13,109,1,3,2,3,1,27,1,4,1,4,1,2,2,8,4,2855,1,2,1,2,7,102,1,31159,2,146,
     2,62,9,21,1,6,1,25,1,65,4,3,3,821,35,1,7,1,14,20374,7,12,5,3176,1,2,3,1,42,1,9,52319,26,26,7,1,
     18,26,26,26,4,1,1,1,7,1,11,26,26,26,26,26,26,26,26,26,26,26,26,26,26,26,26,26,28,28,25,1,6,26,
     25,1,6,26,25,1,6,26,25,1,6,26,25,1,6,1,1,1844,10,1,20,6,6,261,62]

/-- The letters in title case, which have an upper case but are not lowercase. -/
def titlecaseLetters : List Nat :=
  [0x1C5, 0x1C8, 0x1CB, 0x1F2]

def isLowercase (c : Char) : Bool :=
  lowercaseSet.contains c ||
    uppercaseRuns.any (·.covers c.toNat) && !titlecaseLetters.contains c.toNat

end Keystroke
