import Keystroke.Cli.JsonReader
import Keystroke.Options

/-!
# Options files

An options file is a JSON object whose members are options, or a list of their values in order. What
is left out keeps its default, and unknown members are skipped.
-/

namespace Keystroke.Json.Reader

/-! ### Values of a kind -/

/-- A text in quotes, with the characters that cannot be shown escaped. -/
def quotedText (text : String) : String :=
  let shown (c : Char) : List Char :=
    match c with
    | '"' => ['\\', '"']
    | '\\' => ['\\', '\\']
    | '\n' => ['\\', 'n']
    | '\r' => ['\\', 'r']
    | '\t' => ['\\', 't']
    | _ => [c]
  "\"" ++ String.ofList (text.toList.flatMap shown) ++ "\""

/-- A number, in words. -/
def Number.description : Number → String
  | .int value => "integer `" ++ signedDecimal value ++ "`"
  | .float spelling => "floating point `" ++ spelling ++ "`"

/-- Fails at a value that is not of the expected kind. -/
def rejectValue {α : Type} (expected : String) : Reader α := do
  let wrongType (found : String) : Reader α := failHere (.invalidType found expected)
  match ← peek with
  | some 'n' => do
    advance
    word "ull".toList
    wrongType "null"
  | some 't' => do
    advance
    word "rue".toList
    wrongType "boolean `true`"
  | some 'f' => do
    advance
    word "alse".toList
    wrongType "boolean `false`"
  | some '-' => do
    advance
    wrongType (← number true).description
  | some '"' => do
    advance
    wrongType ("string " ++ quotedText (← string))
  | some '[' => wrongType "sequence"
  | some '\x7b' => wrongType "map"
  | some c =>
    if c.isDigit then wrongType (← number false).description
    else failAtNext .expectedValue
  | none => failAtNext .expectedValue

/-- A truth value. -/
def bool : Reader Bool := do
  match ← peekVisible with
  | none => failAtNext .endInValue
  | some 't' => do
    advance
    word "rue".toList
    return true
  | some 'f' => do
    advance
    word "alse".toList
    return false
  | some _ => rejectValue "a boolean"

/-- The name of the kind of numbers that a register limit is. -/
def limitKind : String := "u16"

def registerLimit : Reader Nat := do
  let check (n : Number) : Reader Nat :=
    match n with
    | .int value =>
      if 0 ≤ value ∧ value ≤ Options.maxRegisterLimit then return value.toNat
      else failHere (.invalidValue n.description limitKind)
    | .float _ => failHere (.invalidType n.description limitKind)
  match ← peekVisible with
  | none => failAtNext .endInValue
  | some '-' => do
    advance
    check (← number true)
  | some c => if c.isDigit then check (← number false) else rejectValue limitKind

/-! ### Options -/

/-- The members of an options object. -/
inductive OptionField where
  | comments
  | lineNumbers
  | library
  | localLibraryLabels
  | registerLimit
deriving DecidableEq, Repr

namespace OptionField

/-- All members, in order. -/
def all : List OptionField :=
  [comments, lineNumbers, library, localLibraryLabels, registerLimit]

/-- The name of a member. -/
def name : OptionField → String
  | comments => "emit_comments"
  | lineNumbers => "emit_linenos"
  | library => "emit_support_library"
  | localLibraryLabels => "rewrite_support_library_to_local_labels"
  | registerLimit => "max_registers"

/-- The member with a name. -/
def ofName? (name : String) : Option OptionField :=
  all.find? (·.name == name)

/-- Reads the value of a member. -/
def read (field : OptionField) (options : Options) : Reader Options :=
  match field with
  | comments => return { options with comments := ← bool }
  | lineNumbers => return { options with lineNumbers := ← bool }
  | library => return { options with library := ← bool }
  | localLibraryLabels => return { options with localLibraryLabels := ← bool }
  | registerLimit => return { options with registerLimit := ← Reader.registerLimit }

end OptionField

/-- Whether another member comes next, after the first or before it. Its quote is next then. -/
def atMember (isFirst : Bool) : Reader Bool := do
  match ← peekVisible with
  | some '\x7d' => return false
  | some '"' => if isFirst then return true else failAtNext .expectedObjectEnd
  | some ',' =>
    if isFirst then
      failAtNext .keyNotString
    else
      advance
      match ← peekVisible with
      | some '"' => return true
      | some '\x7d' => failAtNext .trailingComma
      | some _ => failAtNext .keyNotString
      | none => failAtNext .endInValue
  | some _ => failAtNext (if isFirst then .keyNotString else .expectedObjectEnd)
  | none => failAtNext .endInObject

/-- The colon between a key and its value. -/
def colon : Reader Unit := do
  match ← peekVisible with
  | some ':' => advance
  | some _ => failAtNext .expectedColon
  | none => failAtNext .endInObject

/-- The members of an object, at most `bound`, after those that were seen. -/
def membersFrom : Nat → List OptionField → Bool → Options → Reader Options
  | 0, _, _, options => return options
  | bound + 1, seen, isFirst, options => do
    if ← atMember isFirst then
      advance
      match OptionField.ofName? (← string) with
      | some field =>
        if seen.contains field then
          discard peekVisible
          failHere (.duplicateField field.name)
        colon
        membersFrom bound (field :: seen) false (← field.read options)
      | none =>
        colon
        skipValue
        membersFrom bound seen false options
    else
      advance
      return options

/-- Whether another element of a list comes next, after the first or before it. -/
def atElement (isFirst : Bool) : Reader Bool := do
  match ← peekVisible with
  | some ']' => return false
  | some ',' =>
    if isFirst then
      return true
    else
      advance
      match ← peekVisible with
      | some ']' => failAtNext .trailingComma
      | some _ => return true
      | none => failAtNext .endInValue
  | some _ => if isFirst then return true else failAtNext .expectedListEnd
  | none => failAtNext .endInList

/-- The values of a list for the members that are still to come. -/
def elementsFrom : List OptionField → Bool → Options → Reader Options
  | [], _, options => return options
  | field :: rest, isFirst, options => do
    if ← atElement isFirst then elementsFrom rest false (← field.read options)
    else return options

def listEnd : Reader Unit := do
  match ← peekVisible with
  | some ']' => advance
  | some ',' =>
    advance
    match ← peekVisible with
    | some ']' => failAtNext .trailingComma
    | _ => failAtNext .trailingCharacters
  | some _ => failAtNext .trailingCharacters
  | none => failAtNext .endInList

/-- The name of what an options file holds. -/
def optionsKind : String := "struct CompileOptions"

/-- The options that a text holds. -/
def options : Reader Options := do
  let found ← match ← peekVisible with
    | none => failAtNext .endInValue
    | some '\x7b' => do
      advance
      membersFrom ((← get).rest.length + 1) [] true {}
    | some '[' => do
      advance
      let found ← elementsFrom OptionField.all true {}
      listEnd
      pure found
    | some _ => rejectValue optionsKind
  match ← peekVisible with
  | none => return found
  | some _ => failAtNext .trailingCharacters

end Keystroke.Json.Reader

namespace Keystroke

def Options.ofJson (text : String) : Except Json.Error Options :=
  match Json.Reader.options ⟨text.toList, 1, 0⟩ with
  | .ok (options, _) => .ok options
  | .error error => .error error

end Keystroke
