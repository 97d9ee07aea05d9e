import Keystroke.Calculator.Register
import Keystroke.Text.Alphabetic
import Keystroke.Text.Lowercase
import Keystroke.Text.Uppercase

/-!
# Names on the calculator

Source names are longer and richer than the calculator's. A variable keeps the tail of its name, a
global label the head of its name in capitals.
-/

namespace Keystroke

/-- Whether a name has letters and none of them is lowercase. -/
def isAllUppercase (name : String) : Bool :=
  name.toList.any isAlphabetic && !name.toList.any isLowercase

/-- The last characters of a name, as many as a variable may have. -/
def variableName (name : String) : String :=
  let cs := name.toList
  String.ofList (cs.drop (cs.length - maxNameLength))

/-- The first characters of a name in capitals, as many as a label may have. -/
def labelName (name : String) : String :=
  String.ofList ((uppercase name).toList.take maxNameLength)

end Keystroke
