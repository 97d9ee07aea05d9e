import Keystroke.Python.Token.Number
import Keystroke.Text.CharacterName

/-!
# Escapes in text literals

A backslash in a literal that is not raw starts an escape. An escape that is not known stands for
itself, backslash included. An escape by number that lacks digits, or that is past the last code
point, is a fault; one in the surrogate range gives the replacement character. An escape by a name
that no character has is a fault.
-/

namespace Keystroke.Python

/-- Where the reading of a literal stands. -/
inductive EscapeState where
  | plain
  /-- After a backslash. -/
  | backslash
  | hex (left value : Nat)
  /-- Inside an escape by octal digits, with some that may still come. -/
  | octal (left value : Nat)
  /-- After a backslash and a carriage return. -/
  | carriageReturn
  /-- Inside an escape by name, before its opening brace. -/
  | nameStart
  /-- Inside a name whose brace is at an offset, with the characters read so far in reverse. -/
  | named (start : Nat) (reversed : List Char)
deriving DecidableEq

/-- The character that an escape gives when its code point is no character. -/
def replacementChar : Char := Char.ofNat 0xFFFD

/-- The character with a code point, if there is one. -/
def escapedChar? (point : Nat) : Option Char :=
  if 0xD800 ≤ point ∧ point ≤ 0xDFFF then some replacementChar
  else if point ≤ 0x10FFFF then some (Char.ofNat point)
  else none

/-- The character of an escape by a single letter or sign. -/
def simpleEscape? (c : Char) : Option Char :=
  match c with
  | '\\' => some '\\'
  | '\'' => some '\''
  | '"' => some '"'
  | 'a' => some (Char.ofNat 7)
  | 'b' => some (Char.ofNat 8)
  | 'f' => some (Char.ofNat 12)
  | 'n' => some '\n'
  | 'r' => some '\r'
  | 't' => some '\t'
  | 'v' => some (Char.ofNat 11)
  | _ => none

/-- The state after a character that is not inside an escape, and whether it is kept. -/
def plainStep (c : Char) : EscapeState × List Char :=
  if c = '\\' then (.backslash, []) else (.plain, [c])

/-- The state after the character that follows a backslash, and the characters it gives. Escapes by
code point and by name belong to text only, not to bytes. -/
def backslashStep (isText : Bool) (c : Char) : EscapeState × List Char :=
  match simpleEscape? c with
  | some escaped => (.plain, [escaped])
  | none =>
    if isDigitIn 8 c then (.octal 2 ((digitValue? c).getD 0), [])
    else if c = 'x' then (.hex 2 0, [])
    else if c = 'u' && isText then (.hex 4 0, [])
    else if c = 'U' && isText then (.hex 8 0, [])
    else if c = 'N' && isText then (.nameStart, [])
    else if c = '\n' then (.plain, [])
    else if c = '\r' then (.carriageReturn, [])
    else (.plain, ['\\', c])

/-- The state after one character of a literal and the characters it gives, or the offset of a
fault. -/
def escapeStep (isText : Bool) (state : EscapeState) (offset : Nat) (c : Char) :
    Except Nat (EscapeState × List Char) :=
  match state with
  | .plain => .ok (plainStep c)
  | .backslash => .ok (backslashStep isText c)
  | .hex left value =>
    match digitValue? c with
    | none => .error offset
    | some digit =>
      let value := value * 16 + digit
      if left ≤ 1 then
        match escapedChar? value with
        | some escaped => .ok (.plain, [escaped])
        | none => .error (offset + 1)
      else
        .ok (.hex (left - 1) value, [])
  | .octal left value =>
    if left ≠ 0 && isDigitIn 8 c then
      .ok (.octal (left - 1) (value * 8 + (digitValue? c).getD 0), [])
    else
      let (state, kept) := plainStep c
      .ok (state, Char.ofNat value :: kept)
  | .carriageReturn => if c = '\n' then .ok (.plain, []) else .ok (plainStep c)
  | .nameStart => if c = '\x7b' then .ok (.named offset [], []) else .error offset
  | .named start reversed =>
    if c = '\x7d' then
      match characterNamed? reversed.reverse with
      | some named => .ok (.plain, [named])
      | none => .error start
    else
      .ok (.named start (c :: reversed), [])

/-- The characters that the end of a literal gives in a state, or the offset of a fault. -/
def escapeEnd (state : EscapeState) (offset : Nat) : Except Nat (List Char) :=
  match state with
  | .plain => .ok []
  | .carriageReturn => .ok []
  | .backslash => .ok ['\\']
  | .octal _ value => .ok [Char.ofNat value]
  | .hex _ _ => .error offset
  | .nameStart => .error offset
  | .named _ _ => .error offset

/-- The characters of a literal from a state on, or the offset of a fault. -/
def resolveEscapesFrom (isText : Bool) :
    EscapeState → Nat → List Char → Except Nat (List Char)
  | state, offset, [] => escapeEnd state offset
  | state, offset, c :: rest => do
    let (state, given) ← escapeStep isText state offset c
    let others ← resolveEscapesFrom isText state (offset + c.utf8Size) rest
    return given ++ others

/-- The characters of a literal that stands at `offset`, or the offset of a fault. -/
def resolveEscapes (isRaw : Bool) (offset : Nat) (content : List Char) :
    Except Nat (List Char) :=
  if isRaw then .ok content else resolveEscapesFrom true .plain offset content

def nonAscii? (offset : Nat) : List Char → Option Nat
  | [] => none
  | c :: rest => if c.toNat < 128 then nonAscii? (offset + 1) rest else some offset

def bytesFault? (isRaw : Bool) (offset : Nat) (content : List Char) : Option Nat :=
  match nonAscii? offset content with
  | some fault => some fault
  | none =>
    if isRaw then none
    else
      match resolveEscapesFrom false .plain offset content with
      | .ok _ => none
      | .error fault => some fault

end Keystroke.Python
