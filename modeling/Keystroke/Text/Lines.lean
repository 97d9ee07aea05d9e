/-!
# Lines of a text

A text is cut at line feeds. The pieces carry no line feed, and there is one piece more than there
are line feeds.
-/

namespace Keystroke

/-- The first line of a text and the lines after it. -/
def cutLines : List Char → List Char × List (List Char)
  | [] => ([], [])
  | c :: rest =>
    let (line, lines) := cutLines rest
    if c = '\n' then ([], line :: lines) else (c :: line, lines)

/-- The pieces of a text between line feeds. -/
def lineSegments (cs : List Char) : List (List Char) :=
  let (line, lines) := cutLines cs
  line :: lines

/-- The characters without the carriage returns at their end. -/
def dropTrailingReturns (cs : List Char) : List Char :=
  (cs.reverse.dropWhile (· == '\r')).reverse

end Keystroke
