import Keystroke.Text.CharacterName.Listed

/-!
# Characters by name

A character is found by its name in Unicode. The names of common letters and symbols are listed; the
name of an ideograph ends in its code point, and the name of a Hangul syllable in the letters of its
parts. Rare symbols and the letters of other scripts are not found by name.
-/

namespace Keystroke

/-! ### Names that end in a code point -/

/-- The value of a hexadecimal digit in upper case. -/
def nameDigit? (c : Char) : Option Nat :=
  if c.isDigit then some (c.toNat - '0'.toNat)
  else if 'A' ≤ c && c ≤ 'F' then some (c.toNat - 'A'.toNat + 10)
  else none

/-- The number with some hexadecimal digits, at most five. -/
def nameCode? (digits : List Char) : Option Nat :=
  if digits.length ≤ 5 then
    digits.foldlM (fun code c => return code * 16 + (← nameDigit? c)) 0
  else
    none

/-- Characters whose names are some words and their code point. -/
structure CodeNames where
  head : String
  /-- The first and the last code point of each range of such characters. -/
  ranges : List (Nat × Nat)

/-- The character whose name has a loose form. -/
def CodeNames.find? (names : CodeNames) (form : List Char) : Option Char := do
  let code ← nameCode? (← afterWords? names.head.toList form)
  if names.ranges.any fun (first, last) => first ≤ code ∧ code ≤ last then
    some (Char.ofNat code)
  else
    none

/-- The characters whose names end in their code points. -/
def codeNames : List CodeNames :=
  [⟨"CJK UNIFIED IDEOGRAPH",
      [(0x3400, 0x4DBF), (0x4E00, 0x9FFF), (0x20000, 0x2A6DF), (0x2A700, 0x2B739),
       (0x2B740, 0x2B81D), (0x2B820, 0x2CEA1), (0x2CEB0, 0x2EBE0), (0x2EBF0, 0x2EE5D),
       (0x30000, 0x3134A), (0x31350, 0x323AF)]⟩,
   ⟨"CJK COMPATIBILITY IDEOGRAPH", [(0xF900, 0xFA6D), (0xFA70, 0xFAD9), (0x2F800, 0x2FA1D)]⟩,
   ⟨"EGYPTIAN HIEROGLYPH", [(0x13460, 0x143FA)]⟩,
   ⟨"KHITAN SMALL SCRIPT CHARACTER", [(0x18B00, 0x18CD5), (0x18CFF, 0x18CFF)]⟩,
   ⟨"NUSHU CHARACTER", [(0x1B170, 0x1B2FB)]⟩]

/-! ### Hangul syllables -/

/-- The consonants that can start a syllable, in the order of code points. -/
def hangulInitials : List String :=
  ["G", "GG", "N", "D", "DD", "R", "M", "B", "BB", "S", "SS", "", "J", "JJ", "C", "K", "T", "P",
   "H"]

/-- The vowels of a syllable, in the order of code points. -/
def hangulVowels : List String :=
  ["A", "AE", "YA", "YAE", "EO", "E", "YEO", "YE", "O", "WA", "WAE", "OE", "YO", "U", "WEO", "WE",
   "WI", "YU", "EU", "YI", "I"]

/-- The consonants that can end a syllable, in the order of code points. -/
def hangulFinals : List String :=
  ["", "G", "GG", "GS", "N", "NJ", "NH", "D", "L", "LG", "LM", "LB", "LS", "LT", "LP", "LH", "M",
   "B", "BS", "S", "SS", "NG", "J", "C", "K", "T", "P", "H"]

/-- The character with the given parts. -/
def hangulSyllable (initial vowel final : Nat) : Char :=
  Char.ofNat (0xAC00 + (initial * hangulVowels.length + vowel) * hangulFinals.length + final)

/-- The Hangul syllable whose name has a loose form. -/
def hangulNamed? (form : List Char) : Option Char := do
  let parts ← afterWords? "HANGUL SYLLABLE".toList form
  hangulInitials.zipIdx.findSome? fun (initial, i) => do
    let parts ← afterWords? initial.toList parts
    hangulVowels.zipIdx.findSome? fun (vowel, v) => do
      let parts ← afterWords? vowel.toList parts
      let f ← hangulFinals.findIdx? (·.toList == parts)
      return hangulSyllable i v f

/-! ### All names -/

def characterNamed? (name : List Char) : Option Char :=
  let form := looseForm name
  (hangulNamed? form).or <|
    (codeNames.findSome? (·.find? form)).or <| listedNames.findSome? (·.find? form)

end Keystroke
