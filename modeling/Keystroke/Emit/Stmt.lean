import Keystroke.Emit.Assign
import Keystroke.Emit.Control
import Keystroke.Script.Stmt

/-!
# Code of statements and functions

A function takes its arguments from the stack, the last one first. The functions that are defined
directly inside it follow its code, and see its variables.
-/

namespace Keystroke.Emit

open Script (Expr FunctionHeader Ident Stmt)

mutual

/-- The code of a statement. -/
def stmt (labels : FunctionLabels) : Stmt → Emit Unit
  | .pass _ => return ()
  | .expression _ value => expr labels value
  | .returns _ value => do
    if let some value := value then
      expr labels value
    op .returns
  | .assign _ target others value => assign labels target others value
  | .augmented _ target operator value => augment labels target operator value
  | .ifElse _ test body orElse =>
    ifElse (expr labels test) test.start (block labels body)
      (if orElse.isEmpty then none else some (block labels orElse))
  | .whileLoop start test body => whileLoop labels start test (block labels body)
  | .forLoop start target iterable body =>
    forLoop labels start target iterable (block labels body)
  | .breaks start => breakLoop start
  | .continues start => continueLoop start
  | .assertion _ test => do
    expr labels test
    call .assertion
  | .functionDef _ header _ => fail (.use .functionInBlock) header.name.start

/-- The code of statements in order. -/
def block (labels : FunctionLabels) : List Stmt → Emit Unit
  | [] => return ()
  | s :: rest => do
    stmt labels s
    block labels rest

end

/-! ### Functions -/

def paramRegisters : List Ident → Emit (List (Ident × Register))
  | [] => return []
  | param :: rest => do
    let register ← bind param.name .scalar param.start
    return (param, register) :: (← paramRegisters rest)

/-- Stores arguments to registers, the first from the top of the stack. -/
def storeParams : List (Ident × Register) → Emit Unit
  | [] => return ()
  | (id, register) :: rest => do
    storeOfLast register id.name
    op .rollDown
    storeParams rest

/-- Writes a function: its label, its parameters, its own code, and the functions inside it. -/
def function (labels : FunctionLabels) (header : FunctionHeader) (body nested : Emit Unit) :
    Emit Unit := do
  match labels.get? header.name.name with
  | none => fail (.use (.functionWithoutLabel header.name.name)) header.name.start
  | some label =>
    let loops := (← get).loops
    modify fun emitter => { emitter with loops := [], scopes := emitter.scopes.push }
    commented (.lbl label) header.signature
    let registers ← paramRegisters header.params
    storeParams registers.reverse
    body
    finishBody
    nested
    modify fun emitter => { emitter with loops, scopes := emitter.scopes.pop }

/-- The code of the statements of a body that define no function. -/
def ownCode (labels : FunctionLabels) : List Stmt → Emit Unit
  | [] => return ()
  | .functionDef _ _ _ :: rest => ownCode labels rest
  | s :: rest => do
    stmt labels s
    ownCode labels rest

mutual

def definedFunction (labels : FunctionLabels) : Stmt → Emit Unit
  | .functionDef _ header body =>
    function labels header (ownCode labels body) (functions labels body)
  | _ => return ()

/-- The functions among some statements, one after the other. -/
def functions (labels : FunctionLabels) : List Stmt → Emit Unit
  | [] => return ()
  | s :: rest => do
    definedFunction labels s
    functions labels rest

end

/-! ### Modules -/

/-- Whether a statement is code outside functions. -/
def isEntryCode (s : Stmt) : Bool :=
  match s with
  | .functionDef _ _ _ => false
  | .pass _ => false
  | _ => s.entryDeclaration?.isNone

/-- The comment on the label of the code outside functions. -/
def entryComment : String := "program entry"

/-- Writes the code outside functions, which needs a label. -/
def entryCode (labels : FunctionLabels) (body : List Stmt) : Emit Unit := do
  match labels.entry with
  | some label =>
    commented (.lbl label) entryComment
    block labels body
    finishBody
  | none =>
    match body with
    | [] => return ()
    | first :: _ => fail (.use .codeOutsideFunctions) first.start

/-- Writes a module: the code outside functions, then every function. -/
def program (labels : FunctionLabels) (body : List Stmt) : Emit Unit := do
  entryCode labels (body.filter isEntryCode)
  functions labels body

end Keystroke.Emit
