import Keystroke.Calculator.Instr
import Keystroke.Library.Reserved

/-!
# Support routines

Compiled code calls these routines for what takes the calculator more than one instruction:
comparisons, truth values, loop counters, lists and dictionaries. Arguments are pushed in source
order, so that the last one is in X, and a result is left in X.

`Routine.all` is the catalogue. A routine's place in it decides its order in a listing and the
number that its label takes when library labels become local.
-/

namespace Keystroke

/-- A support routine. -/
inductive Routine where
  /-- Packs start, stop and step into a loop counter. -/
  | packCounter
  /-- Reports that a loop counter is out of range. -/
  | rangeError
  | equal | notEqual | less | lessEqual | greater | greaterEqual
  /-- Drops two values and pushes the scratch flag as 1 or 0. -/
  | flagValue
  | truth
  | truthPair
  /-- The negated truth value of X. -/
  | negation
  | flagSet
  | flagClear
  /-- Stops the program when X is zero. -/
  | assertion
  | saveStack | restoreStack
  /-- Appends a value, or a key and a value. -/
  | listPush
  /-- Removes the last row and returns its first element. -/
  | listPop
  | listClear
  /-- The number of rows. -/
  | listLength
  /-- Points at an element given by row and column from zero. -/
  | pointAt
  /-- Turns slice bounds into sizes. -/
  | sliceSize
  /-- Points at the value stored under a key. -/
  | pointAtKey
  /-- Reports that a key is missing. -/
  | keyError
deriving DecidableEq, Repr

namespace Routine

/-- The catalogue, in listing order. -/
def all : List Routine :=
  [packCounter, rangeError, equal, notEqual, less, lessEqual, greater, greaterEqual, flagValue,
    truth, truthPair, negation, flagSet, flagClear, assertion, saveStack, restoreStack, listPush,
    listPop, listClear, listLength, pointAt, sliceSize, pointAtKey, keyError]

/-- The global label that a routine is called by. -/
def name : Routine → String
  | packCounter => "pISG"
  | rangeError => "pErOutR"
  | equal => "pEQ"
  | notEqual => "pNEQ"
  | less => "pLT"
  | lessEqual => "pLTE"
  | greater => "pGT"
  | greaterEqual => "pGTE"
  | flagValue => "p0Bool"
  | truth => "pBool"
  | truthPair => "p2Bool"
  | negation => "pNot"
  | flagSet => "pFS"
  | flagClear => "pFC"
  | assertion => "pAssert"
  | saveStack => "pStoStk"
  | restoreStack => "pRclStk"
  | listPush => "LIST+"
  | listPop => "LIST-"
  | listClear => "CLIST"
  | listLength => "pLen"
  | pointAt => "pMxIJ"
  | sliceSize => "pMxSz"
  | pointAtKey => "p2MxIJ"
  | keyError => "PErNkey"

def ofName? (name : String) : Option Routine :=
  all.find? (·.name == name)

/-- The number that a routine's label takes when library labels become local. -/
def localLabel (routine : Routine) : Nat :=
  Reserved.routineLabels.first + all.idxOf routine

/-- The flags that a routine tests or changes. -/
def flags : Routine → List Nat
  | equal | notEqual | less | lessEqual | greater | greaterEqual => [Reserved.scratchFlag]
  | flagValue | truth | negation => [Reserved.scratchFlag]
  | flagSet | flagClear => [Reserved.testFlag]
  | listPush => [Reserved.pairFlag, Reserved.ignoreErrorFlag]
  | listClear | listLength => [Reserved.ignoreErrorFlag]
  | pointAtKey => [Reserved.pairFlag, Reserved.createKeyFlag, Reserved.ignoreErrorFlag]
  | packCounter | rangeError | truthPair | assertion | saveStack | restoreStack | listPop
  | pointAt | sliceSize | keyError => []

/-- The label numbers that a routine's body uses for its own jumps. -/
def internalLabels : Routine → List Nat
  | packCounter => [90, 91]
  | listPush => [90, 91, 92]
  | listPop | listLength => [90]
  | pointAtKey => [92, 93, 94, 99]
  | rangeError | equal | notEqual | less | lessEqual | greater | greaterEqual | flagValue | truth
  | truthPair | negation | flagSet | flagClear | assertion | saveStack | restoreStack | listClear
  | pointAt | sliceSize | keyError => []

def prerequisites : Routine → List Routine
  | packCounter => [rangeError]
  | equal | notEqual | less | lessEqual | greater | greaterEqual => [flagValue]
  | truthPair => [truth]
  | pointAtKey => [saveStack, restoreStack, packCounter, keyError, listPush]
  | rangeError | flagValue | truth | negation | flagSet | flagClear | assertion | saveStack
  | restoreStack | listPush | listPop | listClear | listLength | pointAt | sliceSize
  | keyError => []

/-! ### Bodies -/

section Bodies

open Reserved

/-- Store X in a named variable. -/
def storeNamed (name : String) : Instr := .store (.named name)

/-- Recall a named variable to X. -/
def recallNamed (name : String) : Instr := .recallValue (.named name)

/-- A storage instruction on the variable that the list-name variable names. -/
def onList (op : MemoryOp) : Instr := .memory op (.indirect (.named listNameVariable))

def onFlag (op : FlagOp) (number : Nat) : Instr := .flag op (.number number)

/-- A call of a support routine by its global label. -/
def call (routine : Routine) : Instr := .xeq (.global routine.name)

/-- A numbered label inside a body. -/
def mark (number : Nat) : Instr := .lbl (.number number)

/-- Compares Y with X by `test` and leaves 1 or 0. -/
def comparisonBody (test : Op) : List Instr :=
  [onFlag .clear scratchFlag, .op test, onFlag .set scratchFlag, call flagValue, .op .returns]

/-- Replaces X by 1 when `test` holds of it and by 0 otherwise. -/
def truthBody (test : Op) : List Instr :=
  [onFlag .clear scratchFlag, .op test, onFlag .set scratchFlag, .op .rollDown,
    onFlag .isSet scratchFlag, .int 1, onFlag .isClear scratchFlag, .int 0, .op .returns]

/-- Replaces a flag number in X by 1 when `test` holds of that flag and by 0 otherwise. -/
def flagTestBody (test : FlagOp) : List Instr :=
  [onFlag .clear testFlag, .flag test (.indirect .x), onFlag .set testFlag, .op .rollDown,
    onFlag .isSet testFlag, .int 1, onFlag .isClear testFlag, .int 0, .op .returns]

/-- The fraction of the counter holds `stop - 1`, at least 0, and the step; its sign follows the
start, so that counters below zero still count up. T is kept. -/
def packCounterBody : List Instr :=
  [.memory .exchange (.stack .t), storeNamed counterSaveVariable, .op .rollDown,
    .int 999, .op .xLtY, call rangeError, .op .rollDown,
    .int 1, .op .sub, .int 1000, .op .div, .op .isNegative, .op .clearX,
    .memory .exchange (.stack .z), .int 100000, .op .div,
    .memory .recallAdd (.stack .z), .memory .recallValue (.stack .y), .op .isNegative, .gto 90,
    .op .rollDown, .op .add, .gto 91,
    mark 90, .op .rollDown, .op .sub,
    mark 91, recallNamed counterSaveVariable, .op .swap, .op .returns]

/-- Appends X, or the key in Y and the value in X while the pair flag is set, as a new row of the
list, which is created when it is missing. -/
def listPushBody : List Instr :=
  [storeNamed listValueVariable, onFlag .isSet pairFlag, .op .rollDown, onFlag .isSet pairFlag,
    storeNamed listKeyVariable,
    onFlag .set ignoreErrorFlag, onList .recallValue, onFlag .isClearThenClear ignoreErrorFlag,
    .gto 90,
    .op .dimensions, .op .rollDown, .gto 91,
    mark 90, .int 0,
    mark 91, .int 1, .op .add, storeNamed listRowVariable,
    onFlag .isSet pairFlag, .int 2, onFlag .isClear pairFlag, .int 1,
    onList .dimension, onList .index, recallNamed listRowVariable, .int 1, .op .storeIndex,
    onFlag .isClear pairFlag, .gto 92,
    recallNamed listKeyVariable, .op .storeElement, .op .nextColumn,
    mark 92, recallNamed listValueVariable, .op .storeElement, .op .returns]

/-- Removes the last row of the list, or the whole variable when it is the only row. -/
def listPopBody : List Instr :=
  [onList .index, onList .recallValue, .op .dimensions, .op .rollDown, storeNamed listRowVariable,
    .int 1, .op .storeIndex, .op .recallElement, storeNamed listValueVariable,
    recallNamed listRowVariable, .int 1, .op .xEqY, .gto 90,
    .op .deleteRow, recallNamed listValueVariable, .op .returns,
    mark 90, onList .clearVariable, recallNamed listValueVariable, .op .returns]

/-- The number of rows of the list, 0 when it does not exist. -/
def listLengthBody : List Instr :=
  [onFlag .set ignoreErrorFlag, onList .recallValue, onFlag .isClearThenClear ignoreErrorFlag,
    .gto 90,
    .op .dimensions, .op .rollDown, .op .returns,
    mark 90, .int 0, .op .returns]

/-- Points at column 2 of the row whose column 1 equals the key in X. The rest of the caller's
stack is kept. A missing key stops the program, or is appended with the value 0 while the
create-key flag is set. -/
def pointAtKeyBody : List Instr :=
  [storeNamed keyVariable, .op .rollDown, call saveStack,
    onFlag .set ignoreErrorFlag, onList .index, onFlag .isClearThenClear ignoreErrorFlag, .gto 92,
    .int 0, onList .recallValue, .op .dimensions, .op .rollDown, .int 1, call packCounter,
    storeNamed rowCounterVariable,
    mark 99, recallNamed rowCounterVariable, .op .integerPart, .int 1, .op .add, .int 1,
    .op .storeIndex, .op .recallElement, recallNamed keyVariable, .op .xEqY, .gto 93,
    .memory .stepCounter (.register (.named rowCounterVariable)), .gto 99,
    mark 92, onFlag .isClear createKeyFlag, call keyError, recallNamed keyVariable, .int 0,
    onFlag .set pairFlag, call listPush, onFlag .clear pairFlag, .gto 94,
    mark 93, .op .nextColumn,
    mark 94, call restoreStack, .op .returns]

/-- The instructions of a routine after its label. -/
def code : Routine → List Instr
  | packCounter => packCounterBody
  | rangeError =>
    [.alpha "range() limited", .alphaAppend " to 999", .op .viewAlpha, .op .stop, .op .returns]
  | equal => comparisonBody .xEqY
  | notEqual => comparisonBody .xNeY
  | less => comparisonBody .xGtY
  | lessEqual => comparisonBody .xGeY
  | greater => comparisonBody .xLtY
  | greaterEqual => comparisonBody .xLeY
  | flagValue =>
    [.op .rollDown, .op .rollDown, onFlag .isSet scratchFlag, .int 1, onFlag .isClear scratchFlag,
      .int 0, .op .returns]
  | truth => truthBody .isNonzero
  | truthPair => [call truth, .op .swap, call truth, .op .swap, .op .returns]
  | negation => truthBody .isZero
  | flagSet => flagTestBody .isSet
  | flagClear => flagTestBody .isClear
  | assertion =>
    [.op .isNonzero, .op .returns, .alpha "AssertionError", .op .viewAlpha, .op .stop, .op .returns]
  | saveStack =>
    [storeNamed saveX, .op .rollDown, storeNamed saveY, .op .rollDown, storeNamed saveZ,
      .op .rollDown, storeNamed saveT, .op .rollDown, .op .returns]
  | restoreStack =>
    [recallNamed saveT, recallNamed saveZ, recallNamed saveY, recallNamed saveX, .op .returns]
  | listPush => listPushBody
  | listPop => listPopBody
  | listClear =>
    [onFlag .set ignoreErrorFlag, onList .clearVariable, onFlag .clear ignoreErrorFlag,
      .op .returns]
  | listLength => listLengthBody
  | pointAt =>
    [.int 1, .op .add, .op .swap, .int 1, .op .add, .op .swap, .op .storeIndex, .op .rollDown,
      .op .rollDown, .op .returns]
  | sliceSize =>
    [.op .swap, .op .sub, .op .rollDown, .op .swap, .op .sub, .op .swap, .op .rollDown, .op .swap,
      .op .returns]
  | pointAtKey => pointAtKeyBody
  | keyError =>
    [.alpha "Dict key not", .alphaAppend " found", .op .viewAlpha, .op .stop, .op .returns]

end Bodies

/-- The instructions of a routine, its label first. -/
def body (routine : Routine) : List Instr :=
  .lbl (.global routine.name) :: routine.code

/-- The listing of a routine, each line closed by a line break. -/
def listing (routine : Routine) : String :=
  String.join (routine.body.map fun instr => instr.text ++ "\n")

end Routine

end Keystroke
