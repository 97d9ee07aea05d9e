import Keystroke.NameMap
import Keystroke.Source.Names

/-!
# Scopes

Scopes give source variables their registers. They form a stack that is searched from the innermost
scope outward, for reads and for writes alike, so that an assignment inside a function updates an
outer variable of the same name. Only `Scopes.bind` makes a new binding.

Numbered registers come from one counter that never goes back, so two variables never share one.
A list or dictionary can have further names, its aliases, which have no register of their own.
-/

namespace Keystroke

/-- The kinds of containers that a variable can hold. -/
inductive Container where
  | list
  | dict
  | matrix
deriving DecidableEq, Repr

/-- The kind of a container, in words. -/
def Container.text : Container → String
  | list => "list"
  | dict => "dict"
  | matrix => "matrix"

/-- What is known about a variable when it is bound. -/
structure VarInfo where
  /-- Bind to the variable of this name, whatever the identifier looks like. -/
  forcedName : Option String := none
  isList : Bool := false
  isDict : Bool := false
  isMatrix : Bool := false
  /-- The variable counts a loop over a range. -/
  isRangeIndex : Bool := false
  /-- The list or dictionary whose elements the variable takes in a loop. -/
  elementOf : Option String := none
deriving DecidableEq, Repr

namespace VarInfo

/-- A scalar variable. -/
def scalar : VarInfo := {}

/-- A list variable. -/
def list : VarInfo := { isList := true }

/-- A dictionary variable. -/
def dict : VarInfo := { isDict := true }

/-- A matrix variable. -/
def matrix : VarInfo := { isMatrix := true }

/-- The counter of a loop over a range. -/
def rangeIndex : VarInfo := { isRangeIndex := true }

/-- A variable bound to a given name. -/
def forced (name : String) : VarInfo := { forcedName := some name }

/-- The variable of a loop over the elements of `container`. -/
def element (container : String) : VarInfo := { elementOf := some container }

/-- Whether the variable holds a container, which needs a name. -/
def isContainer (info : VarInfo) : Bool :=
  info.isList || info.isDict || info.isMatrix

end VarInfo

/-- The ways in which a scope operation can fail. -/
inductive ScopeError where
  | unbound (name : String)
  | registersExhausted (limit : Nat)
  | aliasCycle (name : String)
deriving DecidableEq, Repr

/-- What a failed scope operation reports. -/
def ScopeError.message : ScopeError → String
  | unbound name => "name '" ++ name ++ "' is not defined"
  | registersExhausted limit => "all " ++ decimal limit ++ " numbered registers are in use"
  | aliasCycle name => "list alias '" ++ name ++ "' refers to itself"

/-- The variables of one function, or of the code outside functions. -/
structure Scope where
  bindings : NameMap Register := {}
  /-- Variables that count a loop over a range. -/
  rangeIndices : NameMap Unit := {}
  /-- Loop variables, with the container whose elements they take. -/
  elements : NameMap String := {}
  /-- List variables, with the list of which they are an alias, if any. -/
  lists : NameMap (Option String) := {}
  /-- Dictionary variables, with the dictionary of which they are an alias, if any. -/
  dicts : NameMap (Option String) := {}
  matrices : NameMap Unit := {}

namespace Scope

/-- Records what the last store to a variable left in it. -/
def stamp (scope : Scope) (name : String) (info : VarInfo) : Scope :=
  { scope with
    rangeIndices :=
      if info.isRangeIndex then scope.rangeIndices.insert name () else scope.rangeIndices.erase name
    elements :=
      match info.elementOf with
      | some container => scope.elements.insert name container
      | none => scope.elements.erase name }

/-- The scope with `name` bound to a register and recorded as `info` says. -/
def bind (scope : Scope) (name : String) (register : Register) (info : VarInfo) : Scope :=
  let scope := { scope with bindings := scope.bindings.insert name register }
  let scope := scope.stamp name info
  { scope with
    lists := if info.isList then scope.lists.insert name none else scope.lists
    dicts := if info.isDict then scope.dicts.insert name none else scope.dicts
    matrices := if info.isMatrix then scope.matrices.insert name () else scope.matrices }

def binds (scope : Scope) (name : String) : Bool :=
  scope.bindings.contains name

def isAlias (scope : Scope) (name : String) : Bool :=
  (scope.lists.get? name).any Option.isSome || (scope.dicts.get? name).any Option.isSome

/-- The entry of a name as a list or a dictionary: the container of which it is an alias, if
any. -/
def aliasRecord? (scope : Scope) (name : String) : Option (Option String) :=
  (scope.lists.get? name).or (scope.dicts.get? name)

/-- What the scope knows about a name as a container: `none` when it does not know the name at all,
`some none` when it binds the name to something else. -/
def containerRecord? (scope : Scope) (name : String) : Option (Option Container) :=
  if scope.lists.contains name then some (some .list)
  else if scope.dicts.contains name then some (some .dict)
  else if scope.matrices.contains name then some (some .matrix)
  else if scope.binds name then some none
  else none

end Scope

/-- The stack of scopes, which is never empty, and the counter of numbered registers. -/
structure Scopes where
  innermost : Scope := {}
  /-- The enclosing scopes, nearest first. -/
  outer : List Scope := []
  /-- The next numbered register to hand out. -/
  next : Nat := 0
  /-- How many numbered registers there are. -/
  limit : Nat

namespace Scopes

/-- Fresh scopes with a given number of numbered registers. -/
def ofLimit (limit : Nat) : Scopes := { limit }

/-- All scopes, innermost first. -/
def toList (scopes : Scopes) : List Scope :=
  scopes.innermost :: scopes.outer

/-- Enters a scope. -/
def push (scopes : Scopes) : Scopes :=
  { scopes with innermost := {}, outer := scopes.toList }

/-- Leaves the innermost scope. The outermost scope is never left. -/
def pop (scopes : Scopes) : Scopes :=
  match scopes.outer with
  | [] => scopes
  | scope :: rest => { scopes with innermost := scope, outer := rest }

/-! ### Looking up -/

/-- The register of a name, without regard to aliases. -/
def lookup (scopes : Scopes) (name : String) : Option Register :=
  scopes.toList.findSome? (·.bindings.get? name)

/-- The nearest scope that binds a name to a register. -/
def home? (scopes : Scopes) (name : String) : Option Scope :=
  scopes.toList.find? (·.binds name)

/-- The container of which a name is an alias. The nearest scope that knows the name decides. -/
def aliasTarget? (scopes : Scopes) (name : String) : Option String :=
  (scopes.toList.findSome? fun scope =>
    match scope.aliasRecord? name with
    | some target => some target
    | none => if scope.binds name then some none else none).join

/-- How many aliases in a row are followed before they are taken for a cycle. -/
def maxAliasDepth : Nat := 16

/-- Follows aliases, at most `depth` of them, to a name that is none. -/
def followAliases (scopes : Scopes) : Nat → String → Option String
  | 0, _ => none
  | depth + 1, name =>
    match scopes.aliasTarget? name with
    | some target => followAliases scopes depth target
    | none => some name

/-- The name that a name stands for when aliases are followed. -/
def resolve (scopes : Scopes) (name : String) : Except ScopeError String :=
  match scopes.followAliases maxAliasDepth name with
  | some resolved => .ok resolved
  | none => .error (.aliasCycle name)

/-- The register of a name, with aliases followed. -/
def getRegister (scopes : Scopes) (name : String) : Except ScopeError Register := do
  let resolved ← scopes.resolve name
  match scopes.lookup resolved with
  | some register => .ok register
  | none => .error (.unbound resolved)

/-- Whether a name counts a loop over a range. -/
def isRangeIndex (scopes : Scopes) (name : String) : Bool :=
  (scopes.home? name).any (·.rangeIndices.contains name)

/-- The container whose elements a name takes in a loop. -/
def elementSource? (scopes : Scopes) (name : String) : Option String := do
  let scope ← scopes.home? name
  scope.elements.get? name

/-- The kind of container that a name was declared as, with aliases followed. -/
def container? (scopes : Scopes) (name : String) : Option Container :=
  match scopes.resolve name with
  | .ok resolved => (scopes.toList.findSome? (·.containerRecord? resolved)).join
  | .error _ => none

/-! ### Changing -/

/-- Changes the nearest scope of a list with a property, if there is one. -/
def modifyFirst? (p : Scope → Bool) (f : Scope → Scope) : List Scope → Option (List Scope)
  | [] => none
  | scope :: rest =>
    if p scope then some (f scope :: rest) else (modifyFirst? p f rest).map (scope :: ·)

/-- Changes the scope that binds a name, or the innermost one when none does. -/
def modifyHome (scopes : Scopes) (name : String) (f : Scope → Scope) : Scopes :=
  if scopes.innermost.binds name then
    { scopes with innermost := f scopes.innermost }
  else
    match modifyFirst? (·.binds name) f scopes.outer with
    | some outer => { scopes with outer }
    | none => { scopes with innermost := f scopes.innermost }

/-- Hands out the next numbered register. -/
def allocate (scopes : Scopes) : Except ScopeError (Register × Scopes) :=
  if scopes.next < scopes.limit then
    .ok (.numbered scopes.next, { scopes with next := scopes.next + 1 })
  else
    .error (.registersExhausted scopes.limit)

/-- The named variable that a binding takes, if it does not take a numbered register. -/
def namedRegister? (name : String) (info : VarInfo) : Option Register :=
  match info.forcedName with
  | some forced => some (.named (variableName forced))
  | none =>
    if isAllUppercase name || info.isContainer then some (.named (variableName name)) else none

/-- Binds a name. A numbered register goes to the innermost scope; a named variable takes the place
of an existing binding wherever that is. -/
def bind (scopes : Scopes) (name : String) (info : VarInfo) :
    Except ScopeError (Register × Scopes) :=
  match namedRegister? name info with
  | some register => .ok (register, scopes.modifyHome name (·.bind name register info))
  | none => do
    let (register, scopes) ← scopes.allocate
    return (register, { scopes with innermost := scopes.innermost.bind name register info })

/-- Makes `name` an alias of the list or dictionary `target`. -/
def bindAlias (scopes : Scopes) (name target : String) : Except ScopeError Scopes :=
  match scopes.container? target with
  | none => .error (.unbound target)
  | some kind =>
    let scope := scopes.innermost
    let scope :=
      match kind with
      | .dict => { scope with dicts := scope.dicts.insert name (some target) }
      | .list | .matrix => { scope with lists := scope.lists.insert name (some target) }
    .ok { scopes with innermost := scope }

/-- Records what the last store to a bound variable left in it. -/
def restamp (scopes : Scopes) (name : String) (info : VarInfo) : Scopes :=
  scopes.modifyHome name (·.stamp name info)

/-- Removes the alias `name` from the nearest scope that knows the name, when it is one there. -/
def dropAliasFrom (name : String) : List Scope → Option (List Scope)
  | [] => none
  | scope :: rest =>
    if scope.isAlias name then
      some ({ scope with lists := scope.lists.erase name, dicts := scope.dicts.erase name } :: rest)
    else if scope.binds name || (scope.aliasRecord? name).isSome then
      none
    else
      (dropAliasFrom name rest).map (scope :: ·)

/-- Removes `name` as an alias, so that a store gives it a register of its own. Says whether it was
one in the nearest scope that knows the name. -/
def dropAlias (scopes : Scopes) (name : String) : Bool × Scopes :=
  match dropAliasFrom name scopes.toList with
  | some (innermost :: outer) => (true, { scopes with innermost, outer })
  | _ => (false, scopes)

end Scopes

end Keystroke
