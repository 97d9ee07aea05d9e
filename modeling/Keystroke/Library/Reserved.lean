import Keystroke.Text.Replace
import Keystroke.Text.Decimal

/-!
# Reserved calculator resources

Compiled code and the support routines share one flag register, one label space and one set of
variables. Every flag, label number and variable name that they rely on is listed here, and a
listing template can refer to a flag or a variable by a placeholder in braces.
-/

namespace Keystroke.Reserved

/-! ### Flags -/

/-- Scratch flag of the comparison and truth-value routines. -/
def scratchFlag : Nat := 0

def testFlag : Nat := 1

/-- Set while rows of a key and a value are appended, instead of single values. -/
def pairFlag : Nat := 2

/-- Set while a missing key is created, instead of stopping the program. -/
def createKeyFlag : Nat := 3

/-- The calculator's own flag for ignoring the next error. -/
def ignoreErrorFlag : Nat := 25

/-! ### Label numbers -/

/-- An interval of label numbers, both ends included. -/
structure LabelRange where
  first : Nat
  last : Nat

namespace LabelRange

/-- The number of labels in the interval. -/
def size (range : LabelRange) : Nat :=
  range.last + 1 - range.first

/-- Whether a label number lies in the interval. -/
def contains (range : LabelRange) (label : Nat) : Bool :=
  decide (range.first ≤ label) && decide (label ≤ range.last)

/-- The label numbers in ascending order. -/
def toList (range : LabelRange) : List Nat :=
  List.range' range.first range.size

end LabelRange

/-- Labels at the top of loops. Each is used once in a program. -/
def loopLabels : LabelRange := ⟨0, 29⟩

/-- Labels of forward jumps. They are used again once they have been placed. -/
def skipLabels : LabelRange := ⟨30, 49⟩

/-- The number that the library header takes when library labels become local. -/
def libraryLabel : Nat := 50

/-- The numbers that support routines take when library labels become local. -/
def routineLabels : LabelRange := ⟨51, 89⟩

/-! ### Variables -/

/-- Variable that holds the name of the list or dictionary being worked on. -/
def listNameVariable : String := "ZLIST"

/-- Variable that keeps the caller's T level while a loop counter is packed. -/
def counterSaveVariable : String := "pISGvar"

/-- Variable that holds the key being searched for. -/
def keyVariable : String := "pKey"

/-- Variable that holds the row counter of a key search. -/
def rowCounterVariable : String := "pCnt"

/-- Variable that holds the value being appended. -/
def listValueVariable : String := "pLV"

/-- Variable that holds the key being appended. -/
def listKeyVariable : String := "pLK"

/-- Variable that holds the row being written. -/
def listRowVariable : String := "pRow"

/-- Variables that save the stack levels X, Y, Z and T. -/
def saveX : String := "pX"

@[inherit_doc saveX]
def saveY : String := "pY"

@[inherit_doc saveX]
def saveZ : String := "pZ"

@[inherit_doc saveX]
def saveT : String := "pT"

/-- Every variable that the support routines may create. -/
def variableNames : List String :=
  [listNameVariable, counterSaveVariable, keyVariable, rowCounterVariable, listValueVariable,
    listKeyVariable, listRowVariable, saveX, saveY, saveZ, saveT]

/-! ### Placeholders -/

/-- The names that stand for reserved resources in a listing template, with their values. -/
def placeholders : List (String × String) :=
  [("F_SCRATCH", twoDigits scratchFlag), ("F_TEST", twoDigits testFlag),
    ("F_LIST_2D", twoDigits pairFlag), ("F_AUTO_KEY", twoDigits createKeyFlag),
    ("F_ERR_IGNORE", twoDigits ignoreErrorFlag), ("R_ZLIST", listNameVariable),
    ("R_ISG", counterSaveVariable), ("R_KEY", keyVariable), ("R_CNT", rowCounterVariable),
    ("R_LV", listValueVariable), ("R_LK", listKeyVariable), ("R_ROW", listRowVariable),
    ("R_X", saveX), ("R_Y", saveY), ("R_Z", saveZ), ("R_T", saveT)]

/-- A placeholder as it stands in a template. -/
def bracedName (name : String) : String :=
  "\x7b" ++ name ++ "\x7d"

/-- A template with every placeholder replaced by its value, one placeholder after the other. -/
def expand (template : String) : String :=
  placeholders.foldl (fun text (name, value) => replaceAll (bracedName name) value text) template

end Keystroke.Reserved
