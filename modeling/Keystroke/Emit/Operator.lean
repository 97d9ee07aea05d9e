import Keystroke.Library.Routine
import Keystroke.Python.Operator

/-!
# Code of operators

An operator works on Y and X, in the order of its operands.
-/

namespace Keystroke.Python

/-- The instructions of an operator, if the calculator has it. A product of matrices is an ordinary
product. -/
def BinaryOp.ops? : BinaryOp → Option (List Op)
  | .add => some [.add]
  | .sub => some [.sub]
  | .mul => some [.mul]
  | .matMul => some [.mul]
  | .div => some [.div]
  | .mod => some [.mod]
  | .pow => some [.pow]
  | .floorDiv => some [.div, .integerPart]
  | .bitAnd => some [.and]
  | .bitOr => some [.or]
  | .bitXor => some [.xor]
  | .shiftLeft => none
  | .shiftRight => none

/-- The instruction that combines a register with X by an operator, if there is one. -/
def BinaryOp.storeOp? : BinaryOp → Option MemoryOp
  | .add => some .storeAdd
  | .sub => some .storeSub
  | .mul => some .storeMul
  | .div => some .storeDiv
  | _ => none

/-- The instruction that combines two truth values. -/
def BoolOp.op : BoolOp → Op
  | .and => .and
  | .or => .or

/-- The routine that compares Y with X, if there is one. -/
def CompareOp.routine? : CompareOp → Option Routine
  | .eq => some .equal
  | .notEq => some .notEqual
  | .lt => some .less
  | .le => some .lessEqual
  | .gt => some .greater
  | .ge => some .greaterEqual
  | .is => none
  | .isNot => none
  | .isIn => none
  | .notIn => none

end Keystroke.Python
