import Keystroke.Calculator.Listing
import Keystroke.Fault

/-!
# Writing code

Code is written line by line while the scopes and the supply of jump labels change along with it.
An action of type `Emit` appends its lines or fails. Values travel on the calculator's operand
stack: the code of an expression leaves its value in X, or its text in the alpha register.
-/

namespace Keystroke

/-- The labels that a `break` or `continue` inside a loop jumps to. -/
structure Loop where
  /-- The label at the top of the loop. -/
  entry : Nat
  /-- Whether a `continue` jumps to the top. Otherwise it has to reach the counter at the end. -/
  continuesAtEntry : Bool
  /-- The label before the counter, once a `continue` needs it. -/
  continueLabel : Option Nat := none
  /-- The label after the loop, once something needs it. -/
  exitLabel : Option Nat := none
deriving DecidableEq, Repr

/-- The state while code is written. -/
structure Emitter where
  listing : Listing := {}
  scopes : Scopes
  jumps : LabelSupply := .pools
  /-- The loops around the current statement in its function, innermost first. -/
  loops : List Loop := []

/-- An action that writes code. -/
abbrev Emit := StateT Emitter (Except CompileError)

namespace Emit

/-- Stops with a fault at a position. -/
def fail {α : Type} (fault : Fault) (start : Position) : Emit α :=
  throw ⟨fault, start⟩

/-! ### Lines -/

/-- Changes the listing. -/
def modifyListing (f : Listing → Listing) : Emit Unit :=
  modify fun emitter => { emitter with listing := f emitter.listing }

/-- Appends an instruction. -/
def line (instr : Instr) (kind : LineKind := .plain) : Emit Unit :=
  modifyListing (·.emit instr none kind)

def commented (instr : Instr) (comment : String) : Emit Unit :=
  modifyListing (·.emit instr (some comment))

/-- Appends an instruction without an operand. -/
def op (o : Op) : Emit Unit :=
  line (.op o)

/-- Appends instructions. -/
def lines (instrs : List Instr) (kind : LineKind := .plain) : Emit Unit :=
  modifyListing (·.emitAll instrs kind)

/-- Appends a call of a support routine. -/
def call (routine : Routine) : Emit Unit :=
  modifyListing (·.callRoutine routine)

/-- Appends a store of X, or of the alpha register when `alpha` is set. -/
def store (register : Register) (comment : String) (alpha : Bool) : Emit Unit :=
  modifyListing (·.emitStore register (some comment) alpha)

/-- Appends the store that suits the last line. -/
def storeOfLast (register : Register) (comment : String) : Emit Unit :=
  modifyListing (·.emitStoreOfLast register (some comment))

/-- Whether the last line left text in the alpha register. -/
def lastIsString : Emit Bool :=
  return (← get).listing.lastIsString

/-- Closes a body with a return, unless it ends with one. -/
def finishBody : Emit Unit := do
  let last := (← get).listing.lines.back?.map (·.instr)
  unless last = some (.op .returns) do
    op .returns

/-! ### Jumps -/

/-- A step on the supply of jump labels, with its failure reported at a position. -/
def withJumps {α : Type} (step : LabelSupply → Except JumpPool (α × LabelSupply))
    (start : Position) : Emit α := do
  match step (← get).jumps with
  | .ok (a, jumps) =>
    modify fun emitter => { emitter with jumps }
    return a
  | .error pool => fail (.jumps pool) start

def loopLabel (start : Position) : Emit Nat :=
  withJumps LabelSupply.takeLoop start

/-- A label for a forward jump. -/
def skipLabel (start : Position) : Emit Nat :=
  withJumps LabelSupply.takeSkip start

def place (label : Nat) : Emit Unit :=
  line (.lbl (.number label))

def jump (label : Nat) : Emit Unit :=
  line (.gto label)

/-- Places the label of forward jumps, which can be used again from here on. -/
def placeSkip (label : Nat) : Emit Unit := do
  place label
  modify fun emitter => { emitter with jumps := emitter.jumps.release label }

/-! ### Variables -/

/-- A result of looking into the scopes, with its failure reported at a position. -/
def ofScopes {α : Type} (result : Except ScopeError α) (start : Position) : Emit α :=
  match result with
  | .ok a => return a
  | .error error => fail (.scope error) start

/-- A step that changes the scopes, with its failure reported at a position. -/
def withScopes {α : Type} (step : Scopes → Except ScopeError (α × Scopes)) (start : Position) :
    Emit α := do
  let (a, scopes) ← ofScopes (step (← get).scopes) start
  modify fun emitter => { emitter with scopes }
  return a

/-- The register of a variable. -/
def registerOf (name : String) (start : Position) : Emit Register := do
  ofScopes ((← get).scopes.getRegister name) start

/-- Binds a variable. -/
def bind (name : String) (info : VarInfo) (start : Position) : Emit Register :=
  withScopes (·.bind name info) start

/-- A numbered register without a name. -/
def anonymous (start : Position) : Emit Register :=
  withScopes Scopes.allocate start

end Emit

namespace Scopes

/-- The register that an assignment to `name` writes, and the scopes after it. An alias becomes a
variable of its own, so that the container it stood for is not written over. A matrix always gets a
name. -/
def storeRegister (scopes : Scopes) (name : String) (info : VarInfo) :
    Except ScopeError (Register × Scopes) :=
  let scopes := (scopes.dropAlias name).2
  if info.isMatrix then
    scopes.bind name info
  else
    match scopes.getRegister name with
    | .ok register => .ok (register, scopes.restamp name info)
    | .error (.unbound _) => scopes.bind name info
    | .error error => .error error

end Scopes

namespace Emit

/-- The register that an assignment to `name` writes. -/
def storeRegister (name : String) (info : VarInfo) (start : Position) : Emit Register :=
  withScopes (·.storeRegister name info) start

end Emit

end Keystroke
