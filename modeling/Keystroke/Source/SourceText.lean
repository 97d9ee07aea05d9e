import Keystroke.Text.Decimal
import Keystroke.Text.Lines

/-!
# Source text

Places in a source text are byte offsets into its UTF-8 form. `SourceText.position` turns an offset
into a line and a column, both counted from one, with columns in bytes; `SourceText.lineText` gives
a line for a report.
-/

namespace Keystroke

/-- A place in a source text: line and column, counted from one, in 32 bits each. The default is no
place of any text. -/
structure Position where
  line : UInt32 := 0
  column : UInt32 := 0
deriving DecidableEq, Inhabited, Repr

/-- The position as `line:column`. -/
def Position.text (position : Position) : String :=
  decimal position.line.toNat ++ ":" ++ decimal position.column.toNat

/-- A source text with the offsets at which its lines start. -/
structure SourceText where
  chars : List Char
  starts : List Nat

namespace SourceText

/-- The offsets just after the line feeds of `cs`, which stands at `offset`. -/
def startsAfter (offset : Nat) : List Char → List Nat
  | [] => []
  | c :: rest =>
    let next := offset + c.utf8Size
    if c = '\n' then next :: startsAfter next rest else startsAfter next rest

/-- A text with its line starts. -/
def ofString (text : String) : SourceText :=
  ⟨text.toList, 0 :: startsAfter 0 text.toList⟩

/-- The number of lines that start at or before `offset`, and the last such start. -/
def lineStart (offset : Nat) : List Nat → Nat × Nat
  | [] => (0, 0)
  | start :: rest =>
    if start ≤ offset then
      match lineStart offset rest with
      | (0, _) => (1, start)
      | (count + 1, last) => (count + 2, last)
    else
      (0, 0)

/-- The position of a byte offset, which may lie past the end. -/
def position (source : SourceText) (offset : Nat) : Position :=
  let (line, start) := lineStart offset source.starts
  ⟨.ofNat line, .ofNat (offset - start + 1)⟩

def byteLength : List Char → Nat
  | [] => 0
  | c :: rest => c.utf8Size + byteLength rest

/-- The characters that end at a byte offset or before it. -/
def textBefore : Nat → List Char → List Char
  | _, [] => []
  | offset, c :: rest =>
    if c.utf8Size ≤ offset then c :: textBefore (offset - c.utf8Size) rest else []

/-- The characters between two byte offsets. -/
def slice (source : SourceText) (start stop : Nat) : List Char :=
  (textBefore stop source.chars).drop (textBefore start source.chars).length

/-- The text of a line, counted from one, without its line end; empty when there is no such line.
The last line is open: it ends with the text. -/
def lineText (source : SourceText) (line : Nat) : String :=
  match line with
  | 0 => ""
  | index + 1 =>
    match source.starts[index]? with
    | none => ""
    | some start =>
      let stop :=
        match source.starts[index + 1]? with
        | some next => next - 1
        | none => byteLength source.chars
      String.ofList (dropTrailingReturns (source.slice start stop))

end SourceText

end Keystroke
