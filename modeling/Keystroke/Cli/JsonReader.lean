import Keystroke.Text.Decimal

/-!
# Reading JSON

A reader consumes characters from the front of a text and knows its place. A fault is reported at
the place after what was read, or after the next byte when that is what does not fit.
-/

namespace Keystroke.Json

/-- The ways in which a text is not the JSON that is expected. -/
inductive Fault where
  | endInValue
  | endInObject
  | endInList
  | endInString
  | expectedColon
  | expectedObjectEnd
  | expectedListEnd
  | expectedWord
  | expectedValue
  | keyNotString
  | trailingComma
  | trailingCharacters
  | invalidNumber
  | invalidEscape
  | invalidCodePoint
  | controlCharacter
  | loneSurrogate
  | invalidType (found expected : String)
  /-- A value of the right kind that is out of bounds. -/
  | invalidValue (found expected : String)
  | duplicateField (name : String)
deriving DecidableEq, Repr

/-- What a fault reports. -/
def Fault.text : Fault → String
  | endInValue => "EOF while parsing a value"
  | endInObject => "EOF while parsing an object"
  | endInList => "EOF while parsing a list"
  | endInString => "EOF while parsing a string"
  | expectedColon => "expected `:`"
  | expectedObjectEnd => "expected `,` or `\x7d`"
  | expectedListEnd => "expected `,` or `]`"
  | expectedWord => "expected ident"
  | expectedValue => "expected value"
  | keyNotString => "key must be a string"
  | trailingComma => "trailing comma"
  | trailingCharacters => "trailing characters"
  | invalidNumber => "invalid number"
  | invalidEscape => "invalid escape"
  | invalidCodePoint => "invalid unicode code point"
  | controlCharacter => "control character (\\u0000-\\u001F) found while parsing a string"
  | loneSurrogate => "lone leading surrogate in hex escape"
  | invalidType found expected => "invalid type: " ++ found ++ ", expected " ++ expected
  | invalidValue found expected => "invalid value: " ++ found ++ ", expected " ++ expected
  | duplicateField name => "duplicate field `" ++ name ++ "`"

/-- A fault and its place: the line, counted from one, and the bytes of the line that were read. -/
structure Error where
  fault : Fault
  line : Nat
  column : Nat
deriving DecidableEq, Repr

/-- What an error reports. -/
def Error.text (error : Error) : String :=
  error.fault.text ++ " at line " ++ decimal error.line ++ " column " ++ decimal error.column

/-- The characters still to be read, and the place before them. -/
structure Cursor where
  rest : List Char
  line : Nat := 1
  column : Nat := 0

/-- The place after a character of some bytes. -/
def Cursor.past (cursor : Cursor) (c : Char) (bytes : Nat) (rest : List Char) : Cursor :=
  if c = '\n' then ⟨rest, cursor.line + 1, 0⟩ else ⟨rest, cursor.line, cursor.column + bytes⟩

/-- The place after the next character. -/
def Cursor.next (cursor : Cursor) : Cursor :=
  match cursor.rest with
  | [] => cursor
  | c :: rest => cursor.past c c.utf8Size rest

/-- A rule that reads characters. -/
abbrev Reader := StateT Cursor (Except Error)

namespace Reader

/-- The next character, if there is one. -/
def peek : Reader (Option Char) :=
  return (← get).rest.head?

/-- Consumes one character. -/
def advance : Reader Unit :=
  modify Cursor.next

/-- A fault after what was read. -/
def failHere {α : Type} (fault : Fault) : Reader α := do
  let cursor ← get
  throw ⟨fault, cursor.line, cursor.column⟩

def failAtNext {α : Type} (fault : Fault) : Reader α := do
  let cursor ← get
  match cursor.rest with
  | [] => throw ⟨fault, cursor.line, cursor.column⟩
  | c :: _ =>
    let after := cursor.past c 1 []
    throw ⟨fault, after.line, after.column⟩

def isJsonBlank (c : Char) : Bool :=
  c = ' ' || c = '\n' || c = '\t' || c = '\r'

/-- The place after blank space. -/
def skipBlanksFrom : List Char → Nat → Nat → Cursor
  | [], line, column => ⟨[], line, column⟩
  | c :: rest, line, column =>
    if c = '\n' then skipBlanksFrom rest (line + 1) 0
    else if isJsonBlank c then skipBlanksFrom rest line (column + 1)
    else ⟨c :: rest, line, column⟩

/-- Consumes blank space, and gives the character after it. -/
def peekVisible : Reader (Option Char) := do
  modify fun cursor => skipBlanksFrom cursor.rest cursor.line cursor.column
  peek

/-- Consumes the rest of a word whose first character was read. -/
def word : List Char → Reader Unit
  | [] => return ()
  | c :: rest => do
    match ← peek with
    | none => failHere .endInValue
    | some d =>
      advance
      if c = d then word rest else failHere .expectedWord

/-! ### Strings -/

/-- The value of a hexadecimal digit. -/
def hexValue? (c : Char) : Option Nat :=
  if '0' ≤ c ∧ c ≤ '9' then some (c.toNat - '0'.toNat)
  else if 'a' ≤ c ∧ c ≤ 'f' then some (c.toNat - 'a'.toNat + 10)
  else if 'A' ≤ c ∧ c ≤ 'F' then some (c.toNat - 'A'.toNat + 10)
  else none

/-- Four hexadecimal digits, of which some are still to come. -/
def hexDigits : Nat → Nat → Reader Nat
  | 0, value => return value
  | left + 1, value => do
    match ← peek with
    | none => failHere .endInString
    | some c =>
      advance
      match hexValue? c with
      | some digit => hexDigits left (value * 16 + digit)
      | none => failHere .invalidEscape

/-- The character of an escape by code point, after its mark. Two escapes in the surrogate range
make one character. -/
def codePoint : Reader Char := do
  let first ← hexDigits 4 0
  if 0xDC00 ≤ first ∧ first ≤ 0xDFFF then
    failHere .loneSurrogate
  else if 0xD800 ≤ first ∧ first ≤ 0xDBFF then
    for c in ['\\', 'u'] do
      match ← peek with
      | none => failHere .endInString
      | some d =>
        advance
        unless c = d do
          failHere .loneSurrogate
    let second ← hexDigits 4 0
    if 0xDC00 ≤ second ∧ second ≤ 0xDFFF then
      return Char.ofNat (0x10000 + (first - 0xD800) * 0x400 + (second - 0xDC00))
    else
      failHere .loneSurrogate
  else
    return Char.ofNat first

/-- The character of an escape, after its backslash. -/
def escaped : Reader Char := do
  match ← peek with
  | none => failHere .endInString
  | some c =>
    advance
    match c with
    | '"' => return '"'
    | '\\' => return '\\'
    | '/' => return '/'
    | 'b' => return Char.ofNat 8
    | 'f' => return Char.ofNat 12
    | 'n' => return '\n'
    | 'r' => return '\r'
    | 't' => return '\t'
    | 'u' => codePoint
    | _ => failHere .invalidEscape

/-- The characters of a string up to its closing quote, at most `bound`, in reverse and before
`taken`. -/
def stringFrom : Nat → List Char → Reader (List Char)
  | 0, taken => return taken
  | bound + 1, taken => do
    match ← peek with
    | none => failHere .endInString
    | some c =>
      advance
      if c = '"' then
        return taken
      else if c = '\\' then
        stringFrom bound ((← escaped) :: taken)
      else if c.toNat < 0x20 then
        failHere .controlCharacter
      else
        stringFrom bound (c :: taken)

/-- A string after its opening quote. -/
def string : Reader String := do
  let reversed ← stringFrom ((← get).rest.length + 1) []
  return String.ofList reversed.reverse

/-! ### Numbers -/

/-- A number: a whole one, or the spelling of another one. -/
inductive Number where
  | int (value : Int)
  | float (spelling : String)

/-- The digits that come next, at most `bound`. -/
def digitsFrom : Nat → Reader (List Char)
  | 0 => return []
  | bound + 1 => do
    match ← peek with
    | some c =>
      if c.isDigit then
        advance
        return c :: (← digitsFrom bound)
      else
        return []
    | none => return []

/-- The digits that come next. -/
def digits : Reader (List Char) := do
  digitsFrom (← get).rest.length

/-- Digits, of which there has to be one. -/
def someDigits : Reader (List Char) := do
  match ← digits with
  | [] => if (← peek).isNone then failAtNext .endInValue else failAtNext .invalidNumber
  | taken => return taken

/-- The fraction and the exponent of a number, if it has any. -/
def fraction : Reader (List Char) := do
  let decimals ← match ← peek with
    | some '.' => do
      advance
      pure ('.' :: (← someDigits))
    | _ => pure []
  match ← peek with
  | some mark =>
    if mark = 'e' || mark = 'E' then
      advance
      let sign ← match ← peek with
        | some c => if c = '+' || c = '-' then (do advance; pure [c]) else pure []
        | none => pure []
      return decimals ++ mark :: sign ++ (← someDigits)
    else
      return decimals
  | none => return decimals

/-- The largest whole numbers that are kept exactly. -/
def maxInt : Int := 0xffffffffffffffff

@[inherit_doc maxInt]
def minInt : Int := -0x8000000000000000

/-- A number after its sign. -/
def number (isNegative : Bool) : Reader Number := do
  match ← peek with
  | none => failHere .endInValue
  | some first =>
    advance
    unless first.isDigit do
      failHere .invalidNumber
    if first = '0' && (← peek).any Char.isDigit then
      failAtNext .invalidNumber
    let whole := first :: (← digits)
    let others ← fraction
    let sign := if isNegative then ['-'] else []
    let magnitude : Nat :=
      whole.foldl (fun value c => value * 10 + (c.toNat - '0'.toNat)) 0
    let value : Int := if isNegative then -magnitude else magnitude
    if !others.isEmpty then
      return .float (String.ofList (sign ++ whole ++ others))
    else if (isNegative && magnitude = 0) || value > maxInt || value < minInt then
      return .float (String.ofList (sign ++ whole ++ ['.', '0']))
    else
      return .int value

/-! ### Values that are not used -/

/-- What a bracket opens. -/
inductive Frame where
  | object
  | list
deriving DecidableEq

/-- The key of an object member, with its colon. -/
def skipKey : Reader Unit := do
  match ← peekVisible with
  | some '"' =>
    advance
    discard string
  | some _ => failAtNext .keyNotString
  | none => failAtNext .endInObject
  match ← peekVisible with
  | some ':' => advance
  | some _ => failAtNext .expectedColon
  | none => failAtNext .endInObject

/-- Consumes a value that opens no bracket, or the bracket that it opens. -/
def skipStart : Reader (Option Frame) := do
  match ← peekVisible with
  | none => failAtNext .endInValue
  | some 'n' => do
    advance
    word "ull".toList
    return none
  | some 't' => do
    advance
    word "rue".toList
    return none
  | some 'f' => do
    advance
    word "alse".toList
    return none
  | some '-' => do
    advance
    discard <| number true
    return none
  | some '"' => do
    advance
    discard string
    return none
  | some '[' => do
    advance
    return some .list
  | some '\x7b' => do
    advance
    return some .object
  | some c =>
    if c.isDigit then
      discard <| number false
      return none
    else
      failAtNext .expectedValue

/-- Consumes closing brackets, at most `bound`, up to the place where a further value of the open
frames starts. Gives the frames that are still open. A comma has to come before the value unless a
frame was just opened. -/
def skipEnds : Nat → Bool → List Frame → Reader (List Frame)
  | 0, _, frames => return frames
  | _, _, [] => return []
  | bound + 1, needsComma, frame :: outer => do
    match ← peekVisible, frame with
    | some ']', .list =>
      advance
      skipEnds bound true outer
    | some '\x7d', .object =>
      advance
      skipEnds bound true outer
    | some ',', frame =>
      if needsComma then advance
      return frame :: outer
    | some _, frame =>
      if needsComma then
        failAtNext (if frame = .list then .expectedListEnd else .expectedObjectEnd)
      return frame :: outer
    | none, .list => failAtNext .endInList
    | none, .object => failAtNext .endInObject

/-- Consumes values, at most `bound`, until all open frames are closed. -/
def skipValues : Nat → List Frame → Reader Unit
  | 0, _ => return ()
  | bound + 1, frames => do
    let opened ← skipStart
    let inner := match opened with
      | some frame => frame :: frames
      | none => frames
    match ← skipEnds ((← get).rest.length + 1) opened.isNone inner with
    | [] => return ()
    | frame :: outer =>
      if frame = .object then
        skipKey
      skipValues bound (frame :: outer)

/-- Consumes a value. -/
def skipValue : Reader Unit := do
  skipValues ((← get).rest.length + 1) []

end Reader

end Keystroke.Json
