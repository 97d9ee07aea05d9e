import Keystroke.Python.Token.Cursor
import Keystroke.Python.Token

/-!
# Numbers

Whole numbers in base two, eight, ten and sixteen, numbers with a point or an exponent, and
imaginary numbers. A single underscore may stand between digits, and after the mark of a base.
-/

namespace Keystroke.Python

/-- The value of a digit in bases up to sixteen. -/
def digitValue? (c : Char) : Option Nat :=
  if isDecimalDigit c then some (c.toNat - '0'.toNat)
  else if 'a' ≤ c ∧ c ≤ 'f' then some (c.toNat - 'a'.toNat + 10)
  else if 'A' ≤ c ∧ c ≤ 'F' then some (c.toNat - 'A'.toNat + 10)
  else none

def isDigitIn (base : Nat) (c : Char) : Bool :=
  (digitValue? c).any (· < base)

def digitsValue (base : Nat) (digits : List Char) : Nat :=
  digits.foldl (fun value c => value * base + (digitValue? c).getD 0) 0

/-- The next digits, in reverse and before `taken`, with single underscores between them left out,
and the place after them. -/
def digitRunFrom (p : Char → Bool) : List Char → Nat → List Char → List Char × Cursor
  | [], offset, taken => (taken, ⟨[], offset⟩)
  | c :: rest, offset, taken =>
    if p c then
      digitRunFrom p rest (offset + 1) (c :: taken)
    else if c = '_' && rest.head?.any p then
      digitRunFrom p rest (offset + 1) taken
    else
      (taken, ⟨c :: rest, offset⟩)

theorem forall_digitRunFrom {p : Char → Bool} {cs taken : List Char} {offset : Nat}
    (htaken : ∀ c ∈ taken, p c = true) : ∀ c ∈ (digitRunFrom p cs offset taken).1, p c = true := by
  induction cs generalizing offset taken with
  | nil => exact htaken
  | cons c rest ih =>
    rw [digitRunFrom]
    split
    · rename_i hc
      exact ih (List.forall_mem_cons.mpr ⟨hc, htaken⟩)
    · split
      · exact ih htaken
      · exact htaken

/-- The next digits, with single underscores between them left out, and the place after them. -/
def digitRun (p : Char → Bool) (cursor : Cursor) :
    { digits : List Char // ∀ c ∈ digits, p c = true } × Cursor :=
  let run := digitRunFrom p cursor.rest cursor.offset []
  (⟨run.1.reverse, fun c hc =>
    forall_digitRunFrom (List.forall_mem_nil _) c (List.mem_reverse.mp hc)⟩, run.2)

/-- A number in the base that its mark names, after the mark. -/
def scanMarkedInt (base start : Nat) (cursor : Cursor) : TokenKind × Cursor :=
  let (digits, after) := digitRun (isDigitIn base) cursor
  if digits.val.isEmpty then (.invalid start, after)
  else (.int (digitsValue base digits), after)

/-- Digits with the place after them. -/
abbrev DigitRun := { digits : List Char // ∀ c ∈ digits, isDecimalDigit c = true } × Cursor

theorem isNumeral_nil : ∀ c ∈ ([] : List Char), isNumeralChar c = true :=
  List.forall_mem_nil _

theorem isNumeral_exponent {mark : Char} (hmark : mark = 'e' ∨ mark = 'E') (digits : DigitRun) :
    ∀ c ∈ mark :: digits.1, isNumeralChar c = true := by
  grind [isNumeralChar]

theorem isNumeral_signed {mark c : Char} {rest : List Char} (hmark : mark = 'e' ∨ mark = 'E')
    (hsign : (c = '+' ∨ c = '-') ∧ rest.head?.any isDecimalDigit) (digits : DigitRun) :
    ∀ d ∈ mark :: c :: digits.1, isNumeralChar d = true := by
  grind [isNumeralChar]

/-- The exponent that comes next, if one does, and the place after it. -/
def scanExponent (cursor : Cursor) :
    { cs : List Char // ∀ c ∈ cs, isNumeralChar c = true } × Cursor :=
  match cursor.rest with
  | mark :: c :: rest =>
    if hmark : mark = 'e' ∨ mark = 'E' then
      if isDecimalDigit c then
        let digits := digitRun isDecimalDigit cursor.next
        (⟨mark :: digits.1, isNumeral_exponent hmark digits⟩, digits.2)
      else if hsign : (c = '+' ∨ c = '-') ∧ rest.head?.any isDecimalDigit then
        let digits := digitRun isDecimalDigit cursor.next.next
        (⟨mark :: c :: digits.1, isNumeral_signed hmark hsign digits⟩, digits.2)
      else
        (⟨[], isNumeral_nil⟩, cursor)
    else
      (⟨[], isNumeral_nil⟩, cursor)
  | _ => (⟨[], isNumeral_nil⟩, cursor)

/-- Whether a number starts here. -/
def atNumber : List Char → Bool
  | '.' :: c :: _ => isDecimalDigit c
  | c :: _ => isDecimalDigit c
  | [] => false

/-- The spelling of a number with the given digits and point, and with an exponent if it has
one. -/
def spelling (mantissa exponent : List Char) (hne : mantissa ≠ [])
    (hmantissa : ∀ c ∈ mantissa, isDecimalDigit c = true ∨ c = '.')
    (hexponent : ∀ c ∈ exponent, isNumeralChar c = true) : Numeral where
  text := String.ofList (mantissa ++ exponent)
  isNumeral := by
    constructor
    · intro c hc
      rw [String.toList_ofList, List.head?_append, List.head?_eq_some_head hne] at hc
      cases hc
      exact hmantissa _ (List.head_mem hne)
    · rw [String.toList_ofList, List.forall_mem_append]
      refine ⟨fun c hc => ?_, hexponent⟩
      rcases hmantissa c hc with h | rfl
      · simp [isNumeralChar, h]
      · decide

/-- A decimal number that starts here, with a digit or with a point before a digit. -/
def scanDecimal (start : Cursor) : TokenKind × Cursor :=
  let (digits, afterDigits) := digitRun isDecimalDigit start
  let hasPoint := afterDigits.rest.head? == some '.'
  let afterPoint := if hasPoint then afterDigits.next else afterDigits
  if hasPoint && afterPoint.rest.head? == some '_' then
    (.invalid afterPoint.offset, afterPoint)
  else
    let (fraction, afterFraction) :=
      if hasPoint then digitRun isDecimalDigit afterPoint else (⟨[], nofun⟩, afterPoint)
    let mantissa := if hasPoint then digits ++ '.' :: fraction.val else digits
    let (exponent, afterNumber) := scanExponent afterFraction
    if afterNumber.rest.head?.any fun c => c = 'j' || c = 'J' then
      (.imaginary, afterNumber.next)
    else if h : mantissa ≠ [] ∧ (hasPoint || !exponent.val.isEmpty) then
      (.float (spelling mantissa exponent h.1 (by grind) exponent.property), afterNumber)
    else
      let value := digitsValue 10 digits
      if digits.val.head? == some '0' && value != 0 then (.invalid start.offset, afterNumber)
      else (.int value, afterNumber)

/-- The base that a mark after a leading zero names. -/
def markedBase? : List Char → Option Nat
  | '0' :: mark :: _ =>
    if mark = 'x' || mark = 'X' then some 16
    else if mark = 'o' || mark = 'O' then some 8
    else if mark = 'b' || mark = 'B' then some 2
    else none
  | _ => none

def scanNumber (start : Cursor) : TokenKind × Cursor :=
  match markedBase? start.rest with
  | some base => scanMarkedInt base start.offset (start.skip 2)
  | none => scanDecimal start

end Keystroke.Python
