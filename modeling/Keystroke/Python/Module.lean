import Keystroke.Python.Grammar.Statement
import Keystroke.Python.Token.Scan

/-!
# Modules

The syntax tree of a whole source text.
-/

namespace Keystroke.Python

/-- The grammar whose rules recur into another one. -/
def Grammar.over (g : Grammar) : Grammar where
  conditional := Python.conditional g
  binary := Python.binary g
  formatParts := Python.formatParts g
  pattern := Python.pattern g
  statements := Python.statements g

/-- The grammar whose rules can nest up to a depth. -/
def Grammar.ofDepth (depth : Nat) : Grammar :=
  Nat.repeat Grammar.over depth Grammar.empty

/-- All statements up to the end of the input. -/
def moduleBody (g : Grammar) : Parser (List Stmt) := do
  let lines ← Parser.many do
    if ← Parser.isAt .endOfInput then
      return none
    else
      return some (← g.statements)
  Parser.expect .endOfInput
  return lines.flatten

/-- The statements of a source text, or the first place that does not fit the grammar. A rule
recurs or repeats only after it has consumed a token, so the number of tokens bounds both. -/
def parseModule (text : List Char) : Except SyntaxFault (List Stmt) :=
  let tokens := tokens text
  let bound := tokens.length + 1
  match moduleBody (Grammar.ofDepth bound) bound tokens with
  | .ok (body, _) => .ok body
  | .error fault => .error fault

end Keystroke.Python
