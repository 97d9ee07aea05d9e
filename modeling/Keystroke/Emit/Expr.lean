import Keystroke.Emit.Call
import Keystroke.Emit.Operator

/-!
# Code of expressions

The code of an operation is the code of its operands, in order, and then its instructions. Truth
operators and comparisons run all of their operands.
-/

namespace Keystroke.Emit

open Python (BoolOp CompareOp)
open Script (Expr Ident)

/-- Recalls a variable. Of a loop counter only the whole part is the value. -/
def recallName (labels : FunctionLabels) (id : Ident) : Emit Unit := do
  if labels.has id.name then
    fail (.use (.functionValue id.name)) id.start
  let register ← registerOf id.name id.start
  line (.recallValue register)
  if (← get).scopes.isRangeIndex id.name then
    op .integerPart

mutual

/-- The code of an expression. -/
def expr (labels : FunctionLabels) : Expr → Emit Unit
  | .int _ value => line (.int value)
  | .float _ spelling => line (.decimal spelling)
  | .string _ text => alpha text
  | .bool _ value => line (.int (if value then 1 else 0))
  | .none _ => line (.int 0)
  | .name id => recallName labels id
  | .binary start left operator right =>
    match operator.ops? with
    | none => fail (.use (.operator operator)) start
    | some ops => do
      expr labels left
      expr labels right
      lines (ops.map .op)
  | .boolean _ operator first others => do
    expr labels first
    booleans labels operator others
  | .not _ operand => do
    expr labels operand
    call .truth
    call .negation
  | .negate _ operand => do
    expr labels operand
    op .negate
  | .invert _ operand => do
    expr labels operand
    op .not
  | .compare _ left comparisons => compareChain labels true (expr labels left) comparisons
  | .call start callee args => callFunction labels callee args (codes labels args) start
  | .method _ object attr args => method object attr (codes labels args)
  | .subscript _ object index =>
    loadSubscript object
      ⟨expr labels index, element labels (expr labels index) index, part labels index⟩
  | .slice start _ _ => fail (.use .sliceValue) start
  | .tuple start _ => fail (.use .tupleValue) start
  | .list start _ => fail (.use .containerValue) start
  | .dict start _ => fail (.use .containerValue) start

/-- The code of each of some expressions. -/
def codes (labels : FunctionLabels) : List Expr → List (Emit Unit)
  | [] => []
  | e :: rest => expr labels e :: codes labels rest

/-- The further operands of a truth operator, each combined with the value so far. -/
def booleans (labels : FunctionLabels) (operator : BoolOp) : List Expr → Emit Unit
  | [] => return ()
  | e :: rest => do
    expr labels e
    call .truthPair
    op operator.op
    booleans labels operator rest

/-- A chain of comparisons after an operand, whose code is `previous`. Each comparison but the
first is combined with those before it. -/
def compareChain (labels : FunctionLabels) (isFirst : Bool) (previous : Emit Unit) :
    List (CompareOp × Expr) → Emit Unit
  | [] => return ()
  | (operator, right) :: rest =>
    match operator.routine? with
    | none => fail (.use (.comparison operator)) right.start
    | some routine => do
      previous
      expr labels right
      call routine
      unless isFirst do
        call .truthPair
        op .and
      compareChain labels false (expr labels right) rest

/-- The row and column of a subscript, whose code is `whole`. A single index is a row of the first
column. -/
def element (labels : FunctionLabels) (whole : Emit Unit) : Expr → Emit Unit
  | .tuple _ [row, column] => do
    expr labels row
    expr labels column
  | .tuple start _ => fail (.call .subscriptCount) start
  | _ => do
    whole
    line (.int 0)

/-- The code of an end of a slice, which is zero if it is left out. -/
def sliceEnd (labels : FunctionLabels) : Option Expr → Emit Unit
  | none => line (.int 0)
  | some e => expr labels e

/-- The part of a matrix that a subscript selects, if it does not select an element. A slice of one
dimension selects from the first column. The upper ends have to be given. -/
def part (labels : FunctionLabels) : Expr → Emit (Option PartCode)
  | .slice start lower upper => do
    if upper.isNone then
      fail (.call .sliceUpper) start
    return some ⟨⟨sliceEnd labels lower, sliceEnd labels upper⟩, ⟨line (.int 0), line (.int 1)⟩⟩
  | .tuple start [.slice _ rowLower rowUpper, .slice _ columnLower columnUpper] => do
    if rowUpper.isNone || columnUpper.isNone then
      fail (.call .sliceUpper) start
    return some ⟨⟨sliceEnd labels rowLower, sliceEnd labels rowUpper⟩,
      ⟨sliceEnd labels columnLower, sliceEnd labels columnUpper⟩⟩
  | .tuple start elements => do
    if elements.any (·.isSlice) then
      fail (.call .sliceAxes) start
    return none
  | _ => return none

end

/-- The code of a subscript. -/
def index (labels : FunctionLabels) (e : Expr) : IndexCode :=
  ⟨expr labels e, element labels (expr labels e) e, part labels e⟩

/-- Whether an expression leaves a matrix in X. -/
def producesMatrix (labels : FunctionLabels) (scopes : Scopes) : Expr → Bool
  | .call _ callee _ =>
    !labels.has callee.name && (Primitive.ofName? callee.name).any (·.returnsMatrix)
  | .subscript _ _ index => index.selectsPart
  | .name id => scopes.container? id.name == some .matrix
  | .binary _ left _ right =>
    producesMatrix labels scopes left || producesMatrix labels scopes right
  | .negate _ operand => producesMatrix labels scopes operand
  | _ => false

end Keystroke.Emit
