import Keystroke.Library.Reserved

/-!
# Jump labels

Jumps inside a function use numbered labels. The calculator finds the target of a jump by searching
forward from it, around the end of the program if need be, and takes the first label with the right
number. The label of a forward jump can therefore be used again once it has been placed, since a
later jump meets the later label first. A label that is jumped back to is found only around the end
of the program, so it must be the only one of its number.
-/

namespace Keystroke

/-- The two supplies of jump labels. -/
inductive JumpPool where
  | loop
  | skip
deriving DecidableEq, Repr

/-- What is reported when a supply runs dry. -/
def JumpPool.message : JumpPool → String
  | loop =>
    "too many loops: only " ++ decimal Reserved.loopLabels.size ++ " loop labels are available"
  | skip =>
    "control flow nested too deeply: only " ++ decimal Reserved.skipLabels.size ++
      " forward labels are available"

/-- The jump labels still to be had. -/
structure JumpLabels where
  nextLoop : Nat := Reserved.loopLabels.first
  /-- The forward labels that are free, in ascending order. -/
  freeSkips : List Nat := Reserved.skipLabels.toList

namespace JumpLabels

/-- Hands out a loop label, which is never handed out again. -/
def takeLoop (jumps : JumpLabels) : Except JumpPool (Nat × JumpLabels) :=
  if Reserved.loopLabels.contains jumps.nextLoop then
    .ok (jumps.nextLoop, { jumps with nextLoop := jumps.nextLoop + 1 })
  else
    .error .loop

/-- Hands out the lowest free forward label. -/
def takeSkip (jumps : JumpLabels) : Except JumpPool (Nat × JumpLabels) :=
  match jumps.freeSkips with
  | [] => .error .skip
  | label :: rest => .ok (label, { jumps with freeSkips := rest })

def insertAscending (label : Nat) : List Nat → List Nat
  | [] => [label]
  | free :: rest =>
    if label < free then label :: free :: rest else free :: insertAscending label rest

/-- Takes a forward label back. A label that is free already stays so. -/
def release (jumps : JumpLabels) (label : Nat) : JumpLabels :=
  if jumps.freeSkips.contains label then jumps
  else { jumps with freeSkips := insertAscending label jumps.freeSkips }

end JumpLabels

/-! ### Supplies -/

/-- Where a program takes its jump labels from: the two pools of the calculator, or an unlimited
supply that never hands out a label twice. -/
inductive LabelSupply where
  | pooled (jumps : JumpLabels)
  | unlimited (next : Nat)

namespace LabelSupply

/-- The pools before any label is handed out. -/
def pools : LabelSupply := pooled {}

/-- The unlimited supply before any label is handed out. It starts above the numbers that the
support routines use. -/
def endless : LabelSupply := unlimited 100

/-- Hands out a loop label. -/
def takeLoop : LabelSupply → Except JumpPool (Nat × LabelSupply)
  | pooled jumps => do
    let (label, jumps) ← jumps.takeLoop
    return (label, pooled jumps)
  | unlimited next => .ok (next, unlimited (next + 1))

/-- Hands out a label for a forward jump. -/
def takeSkip : LabelSupply → Except JumpPool (Nat × LabelSupply)
  | pooled jumps => do
    let (label, jumps) ← jumps.takeSkip
    return (label, pooled jumps)
  | unlimited next => .ok (next, unlimited (next + 1))

/-- Takes a forward label back, which an unlimited supply has no need of. -/
def release : LabelSupply → Nat → LabelSupply
  | pooled jumps, label => pooled (jumps.release label)
  | unlimited next, _ => unlimited next

end LabelSupply

end Keystroke
