import Keystroke.Python.Grammar.Expression

/-!
# Patterns

The patterns of `case` clauses. A program with such a clause cannot run on the calculator, so a
pattern is only checked.
-/

namespace Keystroke.Python

open Keystroke.Python.Parser

def PatternKind.isClassName : PatternKind → Bool
  | .capture | .path => true
  | _ => false

/-- Whether a pattern can be the key of a mapping. -/
def PatternKind.isKey : PatternKind → Bool
  | .path | .real | .imaginary | .value | .constant => true
  | _ => false

/-- Whether the key of a mapping can start here. -/
def atKey : Parser Bool := do
  match ← kindHere with
  | .name _ | .int _ | .float _ | .imaginary | .string _ | .bytes | .formatStart _ => return true
  | .keyword word => return ["True", "False", "None"].contains word
  | .symbol "-" => return true
  | _ => return false

/-- Whether a pattern can start here. -/
def atPattern : Parser Bool := do
  match ← kindHere with
  | .symbol text => return ["(", "[", "\x7b", "*", "-"].contains text
  | _ => atKey

/-- Names with points between them, and how many follow the first. -/
def dottedName : Parser Nat := do
  discard expectName
  let others ← many do
    if ← eatSymbol "." then
      discard expectName
      return some ()
    else
      return none
  return others.length

/-- A name, or names with points between them. -/
def namePattern : Parser PatternKind := do
  let isUnderscore ← atWord "_"
  if (← dottedName) ≠ 0 then return .path
  else if isUnderscore then return .wildcard
  else return .capture

/-- The opposite of a number. -/
def negativePattern (g : Grammar) : Parser PatternKind := do
  match ← kindAfter 1 with
  | .int _ | .float _ | .imaginary =>
    advance
    match (← g.binary signLevel .plain).expr with
    | .int _ _ | .float _ _ => return .real
    | _ => return .value
  | _ => failHere

/-- An item of a mapping pattern, a key with its pattern or the rest of the mapping: its offset, and
whether it is the rest. -/
def mappingItem (g : Grammar) : Parser (Nat × Bool) := do
  let start ← here
  if ← eatSymbol "**" then
    discard expectName
    return (start, true)
  else
    unless (← g.pattern false).isKey do
      failAt start
    expectSymbol ":"
    discard <| g.pattern false
    return (start, false)

/-- The items of a mapping pattern in braces. The rest of the mapping comes last. -/
def mappingPattern (g : Grammar) : Parser PatternKind := do
  expectSymbol "\x7b"
  let atItem : Parser Bool := return (← atKey) || (← atSymbol "**")
  let (items, _) ← commaItems atItem (mappingItem g)
  if let _ :: (fault, _) :: _ := items.dropWhile (!·.2) then
    failAt fault
  closeList atItem "\x7d"
  return .compound

/-- A pattern in parentheses, or patterns with commas between them. -/
def groupPattern (g : Grammar) : Parser PatternKind := do
  expectSymbol "("
  if ← eatSymbol ")" then
    return .compound
  let first ← g.pattern true
  if ← eatSymbol "," then
    discard <| commaItems atPattern (g.pattern true)
    closeList atPattern ")"
    return .compound
  else
    expectSymbol ")"
    return first

/-- Patterns with commas between them in brackets. -/
def listPattern (g : Grammar) : Parser PatternKind := do
  expectSymbol "["
  discard <| commaItems atPattern (g.pattern true)
  closeList atPattern "]"
  return .compound

/-- A pattern without arguments, alternatives or signs between numbers. -/
def patternHead (g : Grammar) (allowsStar : Bool) : Parser PatternKind := do
  match ← kindHere with
  | .symbol "*" =>
    unless allowsStar do
      failHere
    advance
    discard expectName
    return .star
  | .symbol "\x7b" => mappingPattern g
  | .symbol "(" => groupPattern g
  | .symbol "[" => listPattern g
  | .symbol "-" => negativePattern g
  | .name _ => namePattern
  | .string _ | .bytes | .formatStart _ =>
    discard <| literals g
    return .value
  | .int _ | .float _ =>
    advance
    return .real
  | .imaginary =>
    advance
    return .imaginary
  | .keyword "True" | .keyword "False" | .keyword "None" =>
    advance
    return .constant
  | _ => failHere

/-- An argument of a class pattern: its offset, and whether it is passed by name. -/
def classPatternItem (g : Grammar) : Parser (Nat × Bool) := do
  let start ← here
  let first ← g.pattern false
  if ← eatSymbol "=" then
    unless first = .capture do
      failAt start
    discard <| g.pattern false
    return (start, true)
  else
    return (start, false)

/-- The arguments of a class pattern in parentheses. Those by place come before those by name. -/
def classPatternArguments (g : Grammar) : Parser Unit := do
  expectSymbol "("
  let (items, _) ← commaItems atPattern (classPatternItem g)
  if let some (fault, _) := (items.dropWhile (!·.2)).find? (!·.2) then
    failAt fault
  closeList atPattern ")"

/-- A pattern with what follows its head: the arguments of a class, or the imaginary part of a
number. -/
def closedPattern (g : Grammar) (allowsStar : Bool) : Parser PatternKind := do
  let start ← here
  let head ← patternHead g allowsStar
  let hasArguments ← atSymbol "("
  if hasArguments then
    unless head.isClassName do
      failAt start
    classPatternArguments g
  if (← atSymbol "+") || (← atSymbol "-") then
    unless head = .real && !hasArguments do
      failAt start
    advance
    let fault ← here
    unless (← patternHead g false) = .imaginary do
      failAt fault
    return .value
  else
    return if hasArguments then .compound else head

def alternatives (g : Grammar) : Parser (List PatternKind) :=
  many do
    if ← eatSymbol "|" then
      return some (← closedPattern g false)
    else
      return none

/-- A pattern: alternatives, and a name for the whole. Neither goes with a star, and the underscore
is no name. -/
def pattern (g : Grammar) (allowsStar : Bool) : Parser PatternKind := do
  let start ← here
  let first ← closedPattern g allowsStar
  let others ← alternatives g
  let isNamed ← eatKeyword "as"
  if others.isEmpty && !isNamed then
    return first
  if first = .star then
    failAt start
  if isNamed then
    let (fault, name) ← expectName
    if name.text = "_" then
      failAt fault
  return .compound

/-- The pattern of a `case`, or patterns with commas between them. A star alone is no pattern. -/
def topPattern (g : Grammar) : Parser Unit := do
  let start ← here
  let first ← pattern g true
  if ← eatSymbol "," then
    discard <| commaItems atPattern (pattern g true)
  else if first = .star then
    failAt start

end Keystroke.Python
