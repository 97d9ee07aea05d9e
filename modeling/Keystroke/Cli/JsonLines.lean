import Keystroke.Calculator.Listing

/-!
# Listings as JSON

A listing can be printed with one JSON object for each of its lines.
-/

namespace Keystroke.Json

/-- A digit in base sixteen. -/
def hexDigit (n : Nat) : Char :=
  ("0123456789abcdef".toList[n]?).getD '0'

/-- A character inside a JSON string. -/
def escapedChar (c : Char) : List Char :=
  match c with
  | '"' => ['\\', '"']
  | '\\' => ['\\', '\\']
  | '\n' => ['\\', 'n']
  | '\r' => ['\\', 'r']
  | '\t' => ['\\', 't']
  | _ =>
    if c = Char.ofNat 8 then ['\\', 'b']
    else if c = Char.ofNat 12 then ['\\', 'f']
    else if c.toNat < 0x20 then
      ['\\', 'u', '0', '0', hexDigit (c.toNat / 16), hexDigit (c.toNat % 16)]
    else [c]

def encodeString (text : String) : String :=
  "\"" ++ String.ofList (text.toList.flatMap escapedChar) ++ "\""

end Keystroke.Json

namespace Keystroke

def LineKind.text : LineKind → String
  | .plain => "plain"
  | .string => "string"

def Line.toJson (line : Line) (number : Nat) : String :=
  let comment := match line.comment with
    | some comment => ",\"comment\":" ++ Json.encodeString comment
    | none => ""
  "\x7b\"text\":" ++ Json.encodeString line.text ++ ",\"lineno\":" ++ decimal number ++ comment ++
    ",\"kind\":" ++ Json.encodeString line.kind.text ++ "\x7d"

/-- The lines of a listing as JSON objects, separated by line breaks. -/
def Listing.toJsonLines (listing : Listing) : String :=
  "\n".intercalate (listing.lines.toList.zipIdx.map fun (line, number) => line.toJson number)

end Keystroke
