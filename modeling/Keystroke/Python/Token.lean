import Keystroke.Text.Word

/-!
# Tokens of Python source

The lexer cuts a source text into tokens. A token remembers where it stands, as byte offsets; a
token inside a bracket also remembers the first line break before it, where a bracket that was left
open is reported.
-/

namespace Keystroke.Python

def isDecimalDigit (c : Char) : Bool :=
  decide ('0' ≤ c) && decide (c ≤ '9')

/-- A text that starts with a digit or a point, if with anything. -/
def StartsAsNumber (text : String) : Prop :=
  ∀ c ∈ text.toList.head?, isDecimalDigit c = true ∨ c = '.'

/-- Whether a character can stand in the spelling of a decimal number. -/
def isNumeralChar (c : Char) : Bool :=
  isDecimalDigit c || c = '.' || c = 'e' || c = 'E' || c = '+' || c = '-'

/-- A text that can spell a decimal number. -/
structure IsNumeral (text : String) : Prop where
  startsAsNumber : StartsAsNumber text
  forall_mem : ∀ c ∈ text.toList, isNumeralChar c = true

/-- The spelling of a number, without underscores. -/
structure Numeral where
  text : String
  isNumeral : IsNumeral text
deriving DecidableEq, Repr

inductive TokenKind where
  | name (word : Word)
  | keyword (word : String)
  | symbol (text : String)
  | int (value : Nat)
  /-- A number with a point or an exponent. -/
  | float (spelling : Numeral)
  | imaginary
  /-- A text literal, with its escapes resolved. -/
  | string (value : String)
  | bytes
  | formatStart (isTemplate : Bool)
  /-- Text between the replacement fields of a formatted literal. -/
  | formatText
  | formatEnd
  | newline
  | indent
  | dedent
  | endOfInput
  /-- Text that is no token; the fault is at the given offset. -/
  | invalid (fault : Nat)
deriving DecidableEq, Repr

def TokenKind.isName (kind : TokenKind) (text : String) : Bool :=
  match kind with
  | .name word => word.text == text
  | _ => false

/-- A token and its place. -/
structure Token where
  kind : TokenKind
  start : Nat
  /-- The offset after the last byte. -/
  stop : Nat
  /-- The first line break before the token, if it was skipped inside exactly one bracket. -/
  lineBreak : Option Nat := none
deriving DecidableEq, Repr

/-- The offset at which a token that is out of place is reported. -/
def Token.fault (token : Token) : Nat :=
  match token.kind with
  | .invalid fault => fault
  | _ => token.start

/-- The reserved words. -/
def keywords : List String :=
  ["False", "None", "True", "and", "as", "assert", "async", "await", "break", "class", "continue",
    "def", "del", "elif", "else", "except", "finally", "for", "from", "global", "if", "import",
    "in", "is", "lambda", "nonlocal", "not", "or", "pass", "raise", "return", "try", "while",
    "with", "yield"]

/-- The symbols, longer ones first, so that the first match is the longest. -/
def symbols : List String :=
  ["**=", "//=", ">>=", "<<=", "...",
    "**", "//", ">>", "<<", "<=", ">=", "==", "!=", "->", "+=", "-=", "*=", "/=", "%=", "&=",
    "|=", "^=", "@=", ":=",
    "+", "-", "*", "/", "%", "@", "&", "|", "^", "~", "<", ">", "(", ")", "[", "]", "\x7b",
    "\x7d", ",", ":", ".", ";", "=", "!"]

end Keystroke.Python
