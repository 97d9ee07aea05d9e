/-!
# Decimal numerals

Numbers are written in base ten without separators. Register numbers, label numbers, flag
numbers and line numbers take at least two digits.
-/

namespace Keystroke

/-- The decimal digits of a number. -/
def decimal (n : Nat) : String :=
  String.ofList (Nat.toDigits 10 n)

/-- The decimal digits of a number, with a leading zero below ten. -/
def twoDigits (n : Nat) : String :=
  if n < 10 then "0" ++ decimal n else decimal n

/-- The decimal digits of an integer, with a minus sign below zero. -/
def signedDecimal : Int → String
  | .ofNat n => decimal n
  | .negSucc n => "-" ++ decimal (n + 1)

end Keystroke
