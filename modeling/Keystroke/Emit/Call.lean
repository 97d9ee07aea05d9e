import Keystroke.Emit.Alpha
import Keystroke.Emit.Callable
import Keystroke.Emit.Container

/-!
# Calls

A function of the script hides a function of the calculator with the same name. The arguments are
given as expressions and as actions, since some functions look at how an argument is written.
-/

namespace Keystroke.Emit

open Script (Expr Ident)

/-- Puts a text in the alpha register. -/
def alpha (text : String) : Emit Unit :=
  lines (alphaLines text) .string

/-- Runs the code of arguments one after the other. -/
def inOrder : List (Emit Unit) → Emit Unit
  | [] => return ()
  | code :: rest => do
    code
    inOrder rest

/-- The number of elements of a container, or of rows of a matrix. -/
def length (arg : Expr) : Emit Unit := do
  match arg with
  | .name id =>
    let (register, kind) ← containerOf id
    match kind with
    | .list | .dict =>
      selectContainer register
      call .listLength
    | .matrix =>
      line (.recallValue register)
      op .dimensions
      op .rollDown
  | _ => fail (.call .lengthArgument) arg.start

/-- Shows a text or a value. -/
def print (arg : Expr) (code : Emit Unit) : Emit Unit := do
  match arg with
  | .string _ text =>
    alpha text
    op .viewAlpha
  | _ =>
    code
    line (.memory .view (.stack .x))

/-- A call at `start` of a function with code of its own. -/
def builtin (function : Builtin) (args : List Expr) (codes : List (Emit Unit)) (start : Position) :
    Emit Unit := do
  match function, args, codes with
  | .range, _, _ => fail (.use .rangeValue) start
  | .entryLabel, _, _ => fail (.entry .insideFunction) start
  | .len, [arg], _ => length arg
  | .print, [arg], [code] => print arg code
  | .int, _, [code] =>
    code
    op .integerPart
  | .abs, _, [code] =>
    code
    op .abs
  | .flagSet, _, [code] =>
    code
    call .flagSet
  | .flagClear, _, [code] =>
    code
    call .flagClear
  | _, _, _ => fail (.call (.oneArgument function.name)) start

/-- The literal of two digits that is the only argument, if it is one. -/
def digits? (args : List Expr) : Option Nat :=
  match args with
  | [arg] =>
    match arg.intLiteral? with
    | some value => if 0 ≤ value ∧ value ≤ 99 then some value.toNat else none
    | none => none
  | _ => none

/-- The variable that an instruction at `start` takes. A text names it as it stands. An input makes
a new variable; only a named one can be indexed or cleared. -/
def variableOperand (o : MemoryOp) (args : List Expr) (start : Position) : Emit Register := do
  match args with
  | [.string _ name] =>
    if name.isEmpty then fail (.call (.variableArgument o.mnemonic)) start
    else return .named name
  | [.name id] =>
    let register ←
      if o = .input then storeRegister id.name (.forced id.name) id.start
      else registerOf id.name id.start
    if (o = .index || o = .clearVariable) && !register.isNamed then
      fail (.call (.numberedVariable o.mnemonic id.name)) id.start
    return register
  | _ => fail (.call (.variableArgument o.mnemonic)) start

def primitive (instruction : Primitive) (args : List Expr) (codes : List (Emit Unit))
    (start : Position) : Emit Unit := do
  match instruction with
  | .stack o arity reversed =>
    unless codes.length = arity do
      fail (.call (.stackArguments o.mnemonic arity codes.length)) start
    inOrder (if reversed then codes.reverse else codes)
    op o
  | .digits o =>
    match digits? args with
    | some n => line (o.instr n)
    | none => fail (.call (.digitsArgument o.mnemonic)) start
  | .onVariable o =>
    let register ← variableOperand o args start
    line (.memory o (.register register))

def callFunction (labels : FunctionLabels) (callee : Ident) (args : List Expr)
    (codes : List (Emit Unit)) (start : Position) : Emit Unit := do
  match labels.get? callee.name with
  | some label =>
    inOrder codes
    line (.xeq label)
  | none =>
    match Builtin.ofName? callee.name with
    | some function => builtin function args codes start
    | none =>
      match Primitive.ofName? callee.name with
      | some instruction => primitive instruction args codes start
      | none => fail (.undefinedFunction callee.name) callee.start

end Keystroke.Emit
