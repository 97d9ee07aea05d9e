import Keystroke.Python.Grammar

/-!
# Parameters

The parameters of functions and lambdas, and the type parameters of definitions.
-/

namespace Keystroke.Python

open Keystroke.Python.Parser

/-- The parameters read so far, and what may still follow. -/
structure ParamsSoFar where
  /-- The plain parameters, the last one first. -/
  plain : List Param := []
  hasCollector : Bool := false
  hasRestricted : Bool := false
  /-- Some parameter has a default value. -/
  seenDefault : Bool := false
  seenSlash : Bool := false
  /-- A star was read, with a name or alone. -/
  seenStar : Bool := false
  /-- The parameter that collects by name was read. -/
  seenDoubleStar : Bool := false
  /-- A star without a name that no parameter follows yet. -/
  bareStar : Option Nat := none

/-- An annotation, if one may stand here and does. -/
def annotation (g : Grammar) (isAnnotated : Bool) (context : Context) : Parser Unit := do
  if isAnnotated then
    if ← eatSymbol ":" then
      discard <| g.conditional context

/-- A parameter after its stars, which has no default value. -/
def collector (g : Grammar) (isAnnotated : Bool) (context : Context) : Parser Unit := do
  discard expectName
  annotation g isAnnotated context
  if ← atSymbol "=" then
    failHere

/-- A star, alone or before the parameter that collects further arguments. -/
def starParam (g : Grammar) (isAnnotated : Bool) (sofar : ParamsSoFar) : Parser ParamsSoFar := do
  let start ← here
  if sofar.seenDoubleStar || sofar.seenStar then
    failAt start
  advance
  if ← atName then
    collector g isAnnotated .starred
    return { sofar with hasCollector := true, seenStar := true, bareStar := none }
  else
    return { sofar with seenStar := true, bareStar := some start }

/-- The parameter that collects further arguments by name. -/
def doubleStarParam (g : Grammar) (isAnnotated : Bool) (sofar : ParamsSoFar) :
    Parser ParamsSoFar := do
  if sofar.seenDoubleStar then
    failHere
  advance
  collector g isAnnotated .plain
  if let some star := sofar.bareStar then
    failAt star
  return { sofar with hasCollector := true, seenDoubleStar := true }

/-- The slash after the parameters that are passed by place only. -/
def slashParam (sofar : ParamsSoFar) : Parser ParamsSoFar := do
  if sofar.plain.isEmpty || sofar.seenSlash || sofar.seenStar || sofar.seenDoubleStar then
    failHere
  advance
  return { sofar with plain := [], hasRestricted := true, seenSlash := true }

/-- A parameter with a name. After a star it is passed by name only. -/
def namedParam (g : Grammar) (isAnnotated : Bool) (sofar : ParamsSoFar) : Parser ParamsSoFar := do
  let (start, name) ← expectName
  annotation g isAnnotated .plain
  let hasDefault ← eatSymbol "="
  if hasDefault then
    discard <| g.conditional .plain
  if sofar.seenDoubleStar || (sofar.seenDefault && !hasDefault && !sofar.seenStar) then
    failAt start
  let seenDefault := sofar.seenDefault || hasDefault
  if sofar.seenStar then
    return { sofar with hasRestricted := true, seenDefault, bareStar := none }
  else
    return { sofar with plain := ⟨start, name, hasDefault⟩ :: sofar.plain, seenDefault }

/-- Whether a parameter, or a mark between parameters, comes next. -/
def atParam : Parser Bool := do
  match ← kindHere with
  | .name _ | .symbol "*" | .symbol "**" | .symbol "/" => return true
  | _ => return false

/-- The parameters that follow, at most `bound`. -/
def paramsFrom (g : Grammar) (isAnnotated : Bool) : Nat → ParamsSoFar → Parser ParamsSoFar
  | 0, sofar => return sofar
  | bound + 1, sofar => do
    let read : Option (ParamsSoFar → Parser ParamsSoFar) :=
      match ← kindHere with
      | .symbol "*" => some (starParam g isAnnotated)
      | .symbol "**" => some (doubleStarParam g isAnnotated)
      | .symbol "/" => some slashParam
      | .name _ => some (namedParam g isAnnotated)
      | _ => none
    match read with
    | none => return sofar
    | some rule =>
      let sofar ← rule sofar
      if ← eatSymbol "," then paramsFrom g isAnnotated bound sofar else return sofar

/-- The parameters of a function or, without annotations, of a lambda. -/
def params (g : Grammar) (isAnnotated : Bool) : Parser Params := do
  let sofar ← paramsFrom g isAnnotated (← read) {}
  if let some star := sofar.bareStar then
    failAt star
  return ⟨sofar.plain.reverse, sofar.hasCollector, sofar.hasRestricted⟩

/-- A type parameter: a name with an optional bound, or a starred name, and a default. -/
def typeParam (g : Grammar) : Parser Unit := do
  if ← eatSymbol "*" then
    discard expectName
    if ← eatSymbol "=" then
      discard <| g.conditional .starred
  else
    let isPlain := !(← eatSymbol "**")
    discard expectName
    annotation g isPlain .plain
    if ← eatSymbol "=" then
      discard <| g.conditional .plain

/-- The type parameters of a definition, if there are any. -/
def typeParams (g : Grammar) : Parser Unit := do
  if ← eatSymbol "[" then
    let atItem : Parser Bool := do
      match ← kindHere with
      | .name _ | .symbol "*" | .symbol "**" => return true
      | _ => return false
    let (items, _) ← commaItems atItem (typeParam g)
    if items.isEmpty && (← atSymbol "]") then
      failHere
    closeList atItem "]"

end Keystroke.Python
