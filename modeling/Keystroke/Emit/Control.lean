import Keystroke.Emit.Expr

/-!
# Code of control flow

The blocks inside are given as actions. A condition that a jump depends on is tested by an
instruction that skips the next line when it does not hold.
-/

namespace Keystroke.Emit

open Script (Expr Ident)

/-! ### Conditions -/

/-- A condition with two branches; the second may be missing. The labels of its jumps are reported
at `start`. -/
def ifElse (test : Emit Unit) (start : Position) (body : Emit Unit) (orElse : Option (Emit Unit)) :
    Emit Unit := do
  test
  let thenLabel ← skipLabel start
  let elseLabel ← skipLabel start
  op .isNonzero
  jump thenLabel
  jump elseLabel
  placeSkip thenLabel
  body
  match orElse with
  | none => placeSkip elseLabel
  | some branch =>
    let endLabel ← skipLabel start
    jump endLabel
    placeSkip elseLabel
    branch
    placeSkip endLabel

/-! ### Loops -/

/-- Writes the body of a loop, and gives the labels that it turned out to need. -/
def loopBody (loop : Loop) (body : Emit Unit) : Emit Loop := do
  modify fun emitter => { emitter with loops := loop :: emitter.loops }
  body
  match (← get).loops with
  | [] => return loop
  | loop :: outer =>
    modify fun emitter => { emitter with loops := outer }
    return loop

/-- Places the label of forward jumps, if there are any. -/
def placeSkip? : Option Nat → Emit Unit
  | none => return ()
  | some label => placeSkip label

/-- Leaves a loop when the value of its condition is zero. Gives the label to which it jumps. -/
def leaveUnless (labels : FunctionLabels) (test : Expr) : Emit Nat := do
  expr labels test
  let exit ← skipLabel test.start
  op .isZero
  jump exit
  return exit

def whileLoop (labels : FunctionLabels) (start : Position) (test : Expr) (body : Emit Unit) :
    Emit Unit := do
  let entry ← loopLabel start
  place entry
  let exitLabel ← if test.isConstantTrue then pure none else some <$> leaveUnless labels test
  let loop ← loopBody { entry, continuesAtEntry := true, exitLabel } body
  jump entry
  placeSkip? loop.exitLabel

/-- The end of a loop with a counter: where a `continue` goes, the counter, and the way out. -/
def closeCounted (counter : Register) (loop : Loop) : Emit Unit := do
  placeSkip? loop.continueLabel
  line (.memory .stepCounter (.register counter))
  jump loop.entry
  placeSkip? loop.exitLabel

/-- The bounds of a range: its start, its end and its step. -/
structure RangeBounds where
  first : Option Expr := none
  stop : Expr
  step : Option Expr := none

/-- The bounds that the arguments of a range give. -/
def rangeBounds? : List Expr → Option RangeBounds
  | [stop] => some { stop }
  | [first, stop] => some { first, stop }
  | [first, stop, step] => some { first, stop, step }
  | _ => none

/-- Fails if a bound is a literal that a loop counter cannot hold. The range is at `start`. -/
def checkBounds (bounds : RangeBounds) (start : Position) : Emit Unit := do
  if let some value := bounds.stop.intLiteral? then
    if value > maxRangeStop then
      fail (.range (.stop value)) bounds.stop.start
  if let some value := bounds.step.bind (·.intLiteral?) then
    if value ≤ 0 then
      fail (.range .step) start

/-- The code of a bound, or the number that it is when it is left out. -/
def boundOr (labels : FunctionLabels) (bound : Option Expr) (omitted : Nat) : Emit Unit :=
  match bound with
  | some e => expr labels e
  | none => line (.int omitted)

/-- A loop over a range, which is at `start`. The variable is the counter itself. -/
def forRange (labels : FunctionLabels) (target : Ident) (args : List Expr) (start : Position)
    (body : Emit Unit) : Emit Unit := do
  match rangeBounds? args with
  | none => fail (.call (.rangeArguments args.length)) start
  | some bounds =>
    checkBounds bounds start
    boundOr labels bounds.first 0
    expr labels bounds.stop
    boundOr labels bounds.step 1
    call .packCounter
    let counter ← storeRegister target.name .rangeIndex target.start
    store counter target.name false
    let entry ← loopLabel start
    place entry
    let loop ← loopBody { entry, continuesAtEntry := false } body
    closeCounted counter loop

def loadRow (container counter : Register) : Emit Unit := do
  line (.index container)
  line (.recallValue counter)
  op .integerPart
  line (.int 0)
  call .pointAt
  op .recallElement

/-- A loop at `start` over the rows of a list or dictionary, with a counter of its own. -/
def forElements (target container : Ident) (start : Position) (body : Emit Unit) : Emit Unit := do
  match (← get).scopes.container? container.name with
  | some .list | some .dict =>
    let source ← registerOf container.name container.start
    let counter ← anonymous start
    let exit ← skipLabel start
    line (.int 0)
    selectContainer source
    call .listLength
    op .isZero
    jump exit
    line (.int 1)
    call .packCounter
    store counter ("for " ++ target.name ++ " in " ++ container.name) false
    let entry ← loopLabel start
    place entry
    loadRow source counter
    let item ← storeRegister target.name (.element container.name) target.start
    store item target.name false
    let loop ← loopBody { entry, continuesAtEntry := false, exitLabel := some exit } body
    closeCounted counter loop
  | _ => fail (.use (.notIterable container.name)) container.start

/-- A loop at `start` over a range or a container. -/
def forLoop (labels : FunctionLabels) (start : Position) (target : Ident) (iterable : Expr)
    (body : Emit Unit) : Emit Unit := do
  match iterable with
  | .call callStart callee args =>
    if callee.name = Builtin.range.name && !labels.has Builtin.range.name then
      forRange labels target args callStart body
    else
      fail (.use .loopIterable) callStart
  | .name container => forElements target container start body
  | _ => fail (.use .loopIterable) iterable.start

/-! ### Leaving a loop -/

/-- Changes the innermost loop. -/
def setLoop (loop : Loop) : Emit Unit :=
  modify fun emitter => { emitter with loops := loop :: emitter.loops.drop 1 }

def breakLoop (start : Position) : Emit Unit := do
  match (← get).loops with
  | [] => fail (.use .breakOutsideLoop) start
  | loop :: _ =>
    match loop.exitLabel with
    | some label => jump label
    | none =>
      let label ← skipLabel start
      setLoop { loop with exitLabel := some label }
      jump label

def continueLoop (start : Position) : Emit Unit := do
  match (← get).loops with
  | [] => fail (.use .continueOutsideLoop) start
  | loop :: _ =>
    if loop.continuesAtEntry then
      jump loop.entry
    else
      match loop.continueLabel with
      | some label => jump label
      | none =>
        let label ← skipLabel start
        setLoop { loop with continueLabel := some label }
        jump label

end Keystroke.Emit
