import Keystroke.Fault
import Keystroke.Library.Routine
import Keystroke.Script.Stmt

/-!
# Assigning labels to functions

Every function gets its label before any code is written, so that a call can come before the
function that it calls. The first function gets a global label unless a declaration before it named
the code outside functions; later ones get a global label if their comment asks for it, and a letter
otherwise. A function comes before the functions that are defined directly inside it.
-/

namespace Keystroke

open Script (FunctionHeader Stmt)

namespace FunctionLabels

/-- Fails if a label is that of a support routine. -/
def rejectReserved (label : Label) (start : Position) : Except CompileError Unit :=
  match label with
  | .global name =>
    if (Routine.ofName? name).isSome then .error ⟨.entry (.reserved name), start⟩ else .ok ()
  | .letter _ => .ok ()
  | .number _ => .ok ()

def assignFunction (labels : FunctionLabels) (header : FunctionHeader) :
    Except CompileError FunctionLabels :=
  let name := header.name.name
  let made :=
    if !labels.hasGlobal || header.isExported then labels.makeGlobal name
    else labels.makeLocal name
  match made with
  | .error error => .error ⟨.label error, header.name.start⟩
  | .ok (label, labels) => do
    rejectReserved label header.name.start
    return labels

mutual

/-- Gives the function that a statement defines its label, and then those directly inside it. -/
def assignDefined : Stmt → FunctionLabels → Except CompileError FunctionLabels
  | .functionDef _ header body, labels => do
    let labels ← labels.assignFunction header
    assignNested body labels
  | _, labels => .ok labels

/-- Gives the functions among some statements their labels, and those directly inside them. -/
def assignNested : List Stmt → FunctionLabels → Except CompileError FunctionLabels
  | [], labels => .ok labels
  | stmt :: rest, labels => do
    let labels ← assignDefined stmt labels
    assignNested rest labels

end

/-- The name that a declaration gives the code outside functions. -/
def entryName? : List Script.Expr → Option String
  | [.string _ name] => if name.isEmpty then none else some name
  | _ => none

/-- Declares the label of the code outside functions by a call with `args` at `start`. -/
def assignEntry (labels : FunctionLabels) (afterFunction : Bool) (start : Position)
    (args : List Script.Expr) : Except CompileError FunctionLabels :=
  if afterFunction then .error ⟨.entry .afterFunction, start⟩
  else if labels.entry.isSome then .error ⟨.entry .repeated, start⟩
  else
    match entryName? args with
    | none => .error ⟨.entry .badArgument, start⟩
    | some name =>
      let (label, labels) := labels.setEntry name
      do
        rejectReserved label start
        return labels

/-- Gives labels to the statements of a module, after a function or before all of them. -/
def assignFrom : Bool → List Stmt → FunctionLabels → Except CompileError FunctionLabels
  | _, [], labels => .ok labels
  | afterFunction, stmt :: rest, labels =>
    match stmt.entryDeclaration?, stmt with
    | some (start, args), _ => do
      let labels ← labels.assignEntry afterFunction start args
      assignFrom afterFunction rest labels
    | none, .functionDef _ header body => do
      let labels ← labels.assignFunction header
      let labels ← assignNested body labels
      assignFrom true rest labels
    | none, _ => assignFrom afterFunction rest labels

def assign (body : List Stmt) : Except CompileError FunctionLabels :=
  assignFrom false body {}

end FunctionLabels

end Keystroke
