import Keystroke.Calculator.Label
import Keystroke.NameMap
import Keystroke.Source.Names

/-!
# Function labels

Every function has one label for the whole program. Global labels are made from the function's
name, and two names may make the same one; local labels are handed out from a bank of letters.
Code outside functions has the label that an entry declaration gives it.
-/

namespace Keystroke

/-- The letters for functions without a global label, in the order of issue. -/
def letterBank : List Char :=
  "ABCDEFGHIJabcd".toList

/-- Who holds a global label. -/
inductive LabelHolder where
  | function (name : String)
  | entry (name : String)
deriving DecidableEq, Repr

def LabelHolder.text : LabelHolder → String
  | function name => "'" ++ name ++ "'"
  | entry name => "LBL(\"" ++ name ++ "\")"

/-- The ways in which a function can fail to get a label. -/
inductive LabelError where
  | duplicate (name : String)
  | bankExhausted (name : String)
  | globalClash (name : String) (label : Label) (holder : LabelHolder)
deriving DecidableEq, Repr

/-- What a function without a label reports. -/
def LabelError.message : LabelError → String
  | duplicate name => "function '" ++ name ++ "' is defined more than once"
  | bankExhausted name =>
    "no local label left for function '" ++ name ++ "': only " ++ decimal letterBank.length ++
      " non-exported functions are supported"
  | globalClash name label holder =>
    "function '" ++ name ++ "' would get label " ++ label.text ++ ", already taken by " ++
      holder.text

/-- The labels handed out so far. -/
structure FunctionLabels where
  labels : NameMap Label := {}
  globals : NameMap LabelHolder := {}
  /-- How many letters have been handed out. -/
  lettersUsed : Nat := 0
  /-- The label of the code outside functions. -/
  entry : Option Label := none

namespace FunctionLabels

def get? (labels : FunctionLabels) (name : String) : Option Label :=
  labels.labels.get? name

def has (labels : FunctionLabels) (name : String) : Bool :=
  labels.labels.contains name

def size (labels : FunctionLabels) : Nat :=
  labels.labels.size

/-- Whether some global label has been handed out, that of the entry included. -/
def hasGlobal (labels : FunctionLabels) : Bool :=
  labels.entry.isSome || labels.labels.any Label.isGlobal

def makeGlobal (labels : FunctionLabels) (name : String) :
    Except LabelError (Label × FunctionLabels) :=
  if labels.has name then
    .error (.duplicate name)
  else
    let text := labelName name
    let label := Label.global text
    match labels.globals.get? text with
    | some holder => .error (.globalClash name label holder)
    | none =>
      .ok (label, { labels with
        labels := labels.labels.insert name label
        globals := labels.globals.insert text (.function name) })

/-- Gives a function the next letter of the bank. -/
def makeLocal (labels : FunctionLabels) (name : String) :
    Except LabelError (Label × FunctionLabels) :=
  if labels.has name then
    .error (.duplicate name)
  else
    match letterBank[labels.lettersUsed]? with
    | none => .error (.bankExhausted name)
    | some letter =>
      let label := Label.letter letter
      .ok (label, { labels with
        labels := labels.labels.insert name label
        lettersUsed := labels.lettersUsed + 1 })

/-- Declares the label of the code outside functions. -/
def setEntry (labels : FunctionLabels) (name : String) : Label × FunctionLabels :=
  let text := labelName name
  let label := Label.global text
  (label, { labels with
    globals := labels.globals.insert text (.entry name)
    entry := some label })

end FunctionLabels

end Keystroke
