import Keystroke.Library.Closure
import Keystroke.Text.Blank
import Keystroke.Text.Lines

/-!
# Listings

A listing is the program being written: its lines in order, and the support routines that it has
called so far. Lines are numbered from zero by their place, so numbers are dense and never change.
-/

namespace Keystroke

/-- What a line leaves behind. A store right after a text line must take the alpha register. -/
inductive LineKind where
  | plain
  | string
deriving DecidableEq, Repr

/-- A line of a listing. -/
structure Line where
  instr : Instr
  comment : Option String := none
  kind : LineKind := .plain
deriving DecidableEq, Repr

namespace Line

/-- The line as the calculator lists it. -/
def text (line : Line) : String :=
  line.instr.text

/-- The kind of line that a text makes: text lines start with a quote or with the append mark and
a quote. -/
def kindOfText (cs : List Char) : LineKind :=
  match cs with
  | '"' :: _ => .string
  | mark :: '"' :: _ => if mark = Instr.appendMark then .string else .plain
  | _ => .plain

/-- The line of an instruction in a block of listing text. -/
def spliced (instr : Instr) : Line :=
  { instr, kind := kindOfText instr.text.toList }

/-- Reads a line of listing text. What follows `//` is a comment; a line without an instruction is
no line, and an empty comment is none. -/
def ofListingText? (raw : List Char) : Option Line :=
  let (text, comment) :=
    match splitAtFirst? ['/', '/'] raw with
    | some (before, after) => (trimChars before, trimChars after)
    | none => (trimChars raw, [])
  if text.isEmpty then
    none
  else
    some {
      instr := .ofText (String.ofList text)
      comment := if comment.isEmpty then none else some (String.ofList comment)
      kind := kindOfText text }

end Line

/-- A program being written, with the support routines that it has called so far. -/
structure Listing where
  lines : Array Line := #[]
  needed : List Routine := []

namespace Listing

/-- The global label of the library header. -/
def libraryHeader : String := "PyLIB"

/-- The title line under the library header. -/
def libraryTitle : String := "PyRPN Lib"

/-! ### Appending -/

def append (listing : Listing) (line : Line) : Listing :=
  { listing with lines := listing.lines.push line }

/-- Appends an instruction. -/
def emit (listing : Listing) (instr : Instr) (comment : Option String := none)
    (kind : LineKind := .plain) : Listing :=
  listing.append ⟨instr, comment, kind⟩

/-- Appends instructions. -/
def emitAll (listing : Listing) (instrs : List Instr) (kind : LineKind := .plain) : Listing :=
  instrs.foldl (fun listing instr => listing.emit instr none kind) listing

/-- Records that a support routine is called. -/
def need (listing : Listing) (routine : Routine) : Listing :=
  if listing.needed.contains routine then listing
  else { listing with needed := listing.needed ++ [routine] }

/-- Appends a call of a support routine. -/
def callRoutine (listing : Listing) (routine : Routine) : Listing :=
  (listing.need routine).emit (Routine.call routine)

/-- Appends a call of the global label `name`, which may be that of a support routine. -/
def callNamed (listing : Listing) (name : String) (comment : Option String := none) : Listing :=
  let listing :=
    match Routine.ofName? name with
    | some routine => listing.need routine
    | none => listing
  listing.emit (.xeq (.global name)) comment

/-- Appends a store of X, or of the alpha register when `alpha` is set. -/
def emitStore (listing : Listing) (register : Register) (comment : Option String) (alpha : Bool) :
    Listing :=
  listing.emit (if alpha then .storeAlpha register else .store register) comment

/-- Whether the last line left text in the alpha register. -/
def lastIsString (listing : Listing) : Bool :=
  match listing.lines.back? with
  | some line => line.kind == .string
  | none => false

def lastText? (listing : Listing) : Option String :=
  listing.lines.back?.map (·.text)

/-- Appends the store that suits the last line. -/
def emitStoreOfLast (listing : Listing) (register : Register) (comment : Option String) :
    Listing :=
  listing.emitStore register comment listing.lastIsString

/-! ### Listing text -/

/-- The lines of a text. A line ends at a line feed, and a carriage return before it belongs to
the line end; the last line may lack one. -/
def textLines (cs : List Char) : List (List Char) :=
  let withoutReturn (line : List Char) : List Char :=
    match line.reverse with
    | '\r' :: rest => rest.reverse
    | _ => line
  match (lineSegments cs).reverse with
  | [] => []
  | last :: closed =>
    let closed := closed.reverse.map withoutReturn
    if last.isEmpty then closed else closed ++ [last]

/-- Appends a block of listing text, one instruction to a line. -/
def splice (listing : Listing) (block : String) : Listing :=
  ((textLines block.toList).filterMap Line.ofListingText?).foldl append listing

/-! ### The support library -/

/-- The local form of a label: a support routine or the library header becomes a number. -/
def localised (label : Label) : Label :=
  match label with
  | .global name =>
    if name = libraryHeader then .number Reserved.libraryLabel
    else
      match Routine.ofName? name with
      | some routine => .number routine.localLabel
      | none => label
  | .letter _ => label
  | .number _ => label

def localisedInstr : Instr → Instr
  | .lbl label => .lbl (localised label)
  | .xeq label => .xeq (localised label)
  | instr => instr

def localiseLabels (listing : Listing) : Listing :=
  { listing with
    lines := listing.lines.map fun line => { line with instr := localisedInstr line.instr } }

/-- The lines that precede the support routines. -/
def headerLines : List Line :=
  [{ instr := .lbl (.global libraryHeader) }, { instr := .alpha libraryTitle, kind := .string },
    { instr := .op .returns }]

/-- Appends every support routine that the listing needs, after a header. A listing that calls no
support routine stays as it is. -/
def appendLibrary (listing : Listing) (localLabels : Bool) : Listing :=
  if listing.needed.isEmpty then
    listing
  else
    let routines := Routine.closure listing.needed
    let lines := headerLines ++ (routines.flatMap Routine.body).map Line.spliced
    let listing := lines.foldl append listing
    if localLabels then listing.localiseLabels else listing

/-! ### Printing -/

def commentColumn : Nat := 20

/-- A line with its comment: comments start at a common column, or one blank after a line that
reaches it. -/
def withComment (text comment : String) : String :=
  let width := text.length
  let gap := if width < commentColumn then commentColumn - width else 1
  text ++ String.ofList (List.replicate gap ' ') ++ "// " ++ comment

/-- A printed line. -/
def renderLine (comments numbers : Bool) (line : Line) (number : Nat) : String :=
  let body :=
    match line.comment with
    | some comment => if comments then withComment line.text comment else line.text
    | none => line.text
  if numbers then twoDigits number ++ " " ++ body else body

/-- The printed listing, lines separated by line breaks. -/
def render (listing : Listing) (comments numbers : Bool) : String :=
  "\n".intercalate
    (listing.lines.toList.zipIdx.map fun (line, number) => renderLine comments numbers line number)

end Listing

end Keystroke
