import Keystroke.Text.Blank
import Keystroke.Text.Replace

/-!
# Comments on a line

A comment runs from the first number sign outside quotes to the end of the line. A backslash inside
quotes hides the character after it.
-/

namespace Keystroke

/-- Where a scan for a comment stands: outside quotes, inside, or after a backslash inside. -/
inductive QuoteState where
  | outside
  | inside (quote : Char)
  | escaped (quote : Char)
deriving DecidableEq

def afterNumberSign? : QuoteState → List Char → Option (List Char)
  | _, [] => none
  | .outside, c :: rest =>
    if c = '#' then some rest
    else if c = '"' || c = '\'' then afterNumberSign? (.inside c) rest
    else afterNumberSign? .outside rest
  | .inside quote, c :: rest =>
    if c = '\\' then afterNumberSign? (.escaped quote) rest
    else if c = quote then afterNumberSign? .outside rest
    else afterNumberSign? (.inside quote) rest
  | .escaped quote, _ :: rest => afterNumberSign? (.inside quote) rest

/-- The comment on a line, without its number sign and the blanks around it. -/
def lineComment? (line : String) : Option String :=
  (afterNumberSign? .outside line.toList).map fun cs => String.ofList (trimChars cs)

/-- Whether a comment asks for a global label. -/
def asksForExport (comment : String) : Bool :=
  occursIn "rpn:".toList comment.toList && occursIn "export".toList comment.toList

end Keystroke
