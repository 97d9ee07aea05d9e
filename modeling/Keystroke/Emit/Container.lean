import Keystroke.Emit.Emitter
import Keystroke.Script.Expr

/-!
# Lists, dictionaries and matrices

All containers are matrix variables with a name. A list is a matrix of one column, a dictionary one
of two columns, with a key and its value in each row. The support routines for lists and
dictionaries find the container through a variable that holds its name. The code of the expressions
inside is given as actions.
-/

namespace Keystroke.Emit

open Script (Ident)

/-- Makes a container the one that the routines for lists and dictionaries work on. -/
def selectContainer (register : Register) : Emit Unit := do
  line (.alpha register.nameOrEmpty) .string
  line (.storeAlpha (.named Reserved.listNameVariable))

/-- The register and the kind of a container. A named variable that was not declared as a list or
dictionary is taken for a matrix. -/
def containerOf (id : Ident) : Emit (Register × Container) := do
  let register ← registerOf id.name id.start
  let scopes := (← get).scopes
  match scopes.container? id.name with
  | some kind => return (register, kind)
  | none =>
    if register.isNamed then return (register, .matrix)
    else fail (.use (.notContainer id.name (scopes.elementSource? id.name))) id.start

/-- Sets a flag that the support routines look at. -/
def setFlag (flag : Nat) : Emit Unit :=
  line (.flag .set (.number flag))

/-- Clears a flag that the support routines look at. -/
def clearFlag (flag : Nat) : Emit Unit :=
  line (.flag .clear (.number flag))

/-! ### Literals -/

/-- Appends values to the selected list. -/
def pushItems : List (Emit Unit) → Emit Unit
  | [] => return ()
  | item :: rest => do
    item
    call .listPush
    pushItems rest

/-- Assigns a list with the given items. -/
def listLiteral (target : Ident) (items : List (Emit Unit)) : Emit Unit := do
  let register ← bind target.name .list target.start
  commented (.memory .clearVariable (.register register)) (target.name ++ " = [...]")
  unless items.isEmpty do
    selectContainer register
    clearFlag Reserved.pairFlag
    pushItems items

/-- Appends keys and values to the selected dictionary. -/
def pushPairs : List (Emit Unit × Emit Unit) → Emit Unit
  | [] => return ()
  | (key, value) :: rest => do
    key
    value
    call .listPush
    pushPairs rest

/-- Assigns a dictionary with the given keys and values. -/
def dictLiteral (target : Ident) (items : List (Emit Unit × Emit Unit)) : Emit Unit := do
  let register ← bind target.name .dict target.start
  commented (.memory .clearVariable (.register register)) (target.name ++ " = \x7b...\x7d")
  unless items.isEmpty do
    selectContainer register
    setFlag Reserved.pairFlag
    pushPairs items
    clearFlag Reserved.pairFlag

/-! ### Subscripts -/

/-- The code of the two ends of a slice. -/
structure SliceEnds where
  lower : Emit Unit
  upper : Emit Unit

structure PartCode where
  rows : SliceEnds
  columns : SliceEnds

/-- The code of a subscript, for each way in which it can be used. -/
structure IndexCode where
  key : Emit Unit
  /-- Leaves a row and a column, counted from zero, in Y and X. -/
  element : Emit Unit
  /-- The part that the subscript selects, if it does not select an element. -/
  part? : Emit (Option PartCode)

/-- Points at the first element of a part of the indexed matrix. -/
def pointAtPart (part : PartCode) : Emit Unit := do
  part.rows.lower
  part.columns.lower
  call .pointAt

/-- Copies a part of a matrix. -/
def loadPart (register : Register) (part : PartCode) : Emit Unit := do
  line (.index register)
  pointAtPart part
  part.rows.lower
  part.rows.upper
  part.columns.lower
  part.columns.upper
  call .sliceSize
  op .getMatrix

/-- Loads an element or a part of a container. -/
def loadSubscript (object : Ident) (index : IndexCode) : Emit Unit := do
  let (register, kind) ← containerOf object
  match kind with
  | .dict =>
    selectContainer register
    index.key
    call .pointAtKey
    op .recallElement
  | .list | .matrix =>
    match ← index.part? with
    | some part => loadPart register part
    | none =>
      line (.index register)
      index.element
      call .pointAt
      op .recallElement

/-- Stores X in an element or a part of a container. -/
def storeSubscript (object : Ident) (index : IndexCode) : Emit Unit := do
  let (register, kind) ← containerOf object
  match kind with
  | .dict =>
    selectContainer register
    setFlag Reserved.createKeyFlag
    index.key
    call .pointAtKey
    clearFlag Reserved.createKeyFlag
    op .storeElement
  | .list | .matrix =>
    line (.index register)
    match ← index.part? with
    | some part =>
      pointAtPart part
      op .putMatrix
    | none =>
      index.element
      call .pointAt
      op .storeElement

/-! ### Methods -/

/-- Gives a matrix its dimensions, and makes it one if it is not. -/
def dimension (object attr : Ident) (args : List (Emit Unit)) : Emit Unit := do
  match args with
  | [rows, columns] =>
    let register ← storeRegister object.name .matrix object.start
    rows
    columns
    line (.memory .dimension (.register register))
  | _ => fail (.call .dimArguments) attr.start

/-- Inserts or deletes a row of a matrix. -/
def changeRow (register : Register) (row : Emit Unit) (o : Op) : Emit Unit := do
  line (.index register)
  row
  line (.int 0)
  call .pointAt
  op o

/-- The methods of containers, apart from that which gives dimensions. -/
def methodNames : List String :=
  ["append", "pop", "clear", "insr", "delr"]

/-- Calls a method of a container. -/
def method (object attr : Ident) (args : List (Emit Unit)) : Emit Unit := do
  if attr.name = "dim" then
    dimension object attr args
  else
    let (register, kind) ← containerOf object
    match attr.name, kind, args with
    | "append", .list, [value] =>
      selectContainer register
      clearFlag Reserved.pairFlag
      value
      call .listPush
    | "pop", .list, [] =>
      selectContainer register
      call .listPop
    | "clear", .list, [] | "clear", .dict, [] =>
      selectContainer register
      call .listClear
    | "insr", .list, [row] | "insr", .matrix, [row] => changeRow register row .insertRow
    | "delr", .list, [row] | "delr", .matrix, [row] => changeRow register row .deleteRow
    | name, _, _ =>
      if methodNames.contains name then
        fail (.call (.methodArguments object.name name)) attr.start
      else
        fail (.use (.method name)) attr.start

end Keystroke.Emit
