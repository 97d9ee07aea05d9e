import Keystroke.Emit.Expr

/-!
# Code of assignments

A list or dictionary literal makes its target a container, and the name of a container makes its
target an alias of it. Any other value is computed once and stored to every target in turn.
-/

namespace Keystroke.Emit

open Python (BinaryOp)
open Script (Expr Ident)

/-- The only target of an assignment, which has to be a name. -/
def singleName (value : SingleNameValue) : List Expr → Emit Ident
  | [.name id] => return id
  | first :: _ => fail (.use (.singleName value)) first.start
  | [] => fail (.use (.noTarget value)) {}

/-- Stores the value in X, or the text in the alpha register, to one target. -/
def storeTarget (labels : FunctionLabels) (info : VarInfo) (alpha : Bool) (target : Expr) :
    Emit Unit := do
  match target with
  | .name id =>
    let register ← storeRegister id.name info id.start
    store register id.name alpha
  | .subscript _ object subscript => storeSubscript object (index labels subscript)
  | _ => fail (.use .assignTarget) target.start

/-- Stores the value in X, or the text in the alpha register, to targets in turn. -/
def storeTargets (labels : FunctionLabels) (info : VarInfo) (alpha : Bool) :
    List Expr → Emit Unit
  | [] => return ()
  | target :: rest => do
    storeTarget labels info alpha target
    storeTargets labels info alpha rest

def assignValue (labels : FunctionLabels) (targets : List Expr) (value : Expr) : Emit Unit := do
  let isMatrix := producesMatrix labels (← get).scopes value
  expr labels value
  let alpha ← lastIsString
  storeTargets labels (if isMatrix then .matrix else .scalar) alpha targets

/-! ### Tuples -/

def pushValues (labels : FunctionLabels) : List Expr → Emit Unit
  | [] => return ()
  | value :: rest => do
    expr labels value
    if ← lastIsString then
      fail (.use .unpackedString) value.start
    pushValues labels rest

/-- The registers of names that are assigned side by side. -/
def unpackedRegisters : List Expr → Emit (List (Ident × Register))
  | [] => return []
  | .name id :: rest => do
    let register ← storeRegister id.name .scalar id.start
    return (id, register) :: (← unpackedRegisters rest)
  | target :: _ => fail (.use .unpackedTarget) target.start

/-- Stores values to registers, the first from the top of the stack. -/
def storeDown : List (Ident × Register) → Emit Unit
  | [] => return ()
  | (id, register) :: rest => do
    store register id.name false
    op .rollDown
    storeDown rest

/-- Assigns values to names side by side: all values are pushed before the first is stored. -/
def unpack (labels : FunctionLabels) (start : Position) (names : List Expr) (value : Expr) :
    Emit Unit := do
  match value with
  | .tuple _ values =>
    unless values.length = names.length do
      fail (.use (.unpackedCount values.length names.length)) start
    if values.length > stackDepth then
      fail (.use .unpackedWidth) start
    pushValues labels values
    let registers ← unpackedRegisters names
    storeDown registers.reverse
  | _ => fail (.use .unpackedValue) value.start

/-! ### Assignments -/

def assignComputed (labels : FunctionLabels) (target : Expr) (others : List Expr) (value : Expr) :
    Emit Unit := do
  match target, others with
  | .tuple start names, [] => unpack labels start names value
  | _, _ => assignValue labels (target :: others) value

/-- Assigns the variable `source`. A list or dictionary is shared, not copied. -/
def assignName (labels : FunctionLabels) (target : Expr) (others : List Expr) (source : Ident) :
    Emit Unit := do
  match (← get).scopes.container? source.name with
  | some .list | some .dict =>
    let id ← singleName .containerAlias (target :: others)
    withScopes (fun scopes => return ((), ← scopes.bindAlias id.name source.name)) source.start
  | _ => assignComputed labels target others (.name source)

def assign (labels : FunctionLabels) (target : Expr) (others : List Expr) (value : Expr) :
    Emit Unit := do
  match value with
  | .list _ elements =>
    let id ← singleName .listLiteral (target :: others)
    listLiteral id (elements.map (expr labels))
  | .dict _ items =>
    let id ← singleName .dictLiteral (target :: others)
    dictLiteral id (items.map fun (key, item) => (expr labels key, expr labels item))
  | .name source => assignName labels target others source
  | _ => assignComputed labels target others value

/-- Combines a variable with a value. -/
def augment (labels : FunctionLabels) (target : Expr) (operator : BinaryOp) (value : Expr) :
    Emit Unit := do
  match target with
  | .name id =>
    let register ← registerOf id.name id.start
    match operator.storeOp? with
    | some o =>
      expr labels value
      commented (.memory o (.register register)) (id.name ++ " " ++ operator.sign ++ "=")
    | none =>
      match operator.ops? with
      | none => fail (.use (.operator operator)) id.start
      | some ops =>
        line (.recallValue register)
        expr labels value
        lines (ops.map .op)
        store register id.name false
  | _ => fail (.use .augmentedTarget) target.start

end Keystroke.Emit
