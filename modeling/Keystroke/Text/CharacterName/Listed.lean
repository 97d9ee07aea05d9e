import Keystroke.Text.CharacterName.Loose

/-!
# Listed names of characters

The names of common characters: those of Latin and Greek letters, of punctuation and of
symbols in everyday use, and the aliases of control characters.
-/

namespace Keystroke

/-- Names of neighbouring characters. -/
structure ListedNames where
  /-- The code point of the first one. -/
  first : Nat
  /-- The words that all names start with. -/
  head : String
  /-- What follows in each name, with commas between them. -/
  tails : String

/-- The character whose name has a loose form. -/
def ListedNames.find? (names : ListedNames) (form : List Char) : Option Char := do
  let tail ← afterWords? names.head.toList form
  let index ← (names.tails.splitOn ",").findIdx? (looseForm ·.toList == tail)
  return Char.ofNat (names.first + index)

/-- Names of common characters, and after them aliases. -/
def listedNames : List ListedNames :=
  [⟨0x20, "", "SPACE, EXCLAMATION MARK, QUOTATION MARK, NUMBER SIGN, DOLLAR SIGN, PERCENT SIGN,
      AMPERSAND, APOSTROPHE, LEFT PARENTHESIS, RIGHT PARENTHESIS, ASTERISK, PLUS SIGN, COMMA,
      HYPHEN-MINUS, FULL STOP, SOLIDUS"⟩,
   ⟨0x30, "DIGIT", "ZERO, ONE, TWO, THREE, FOUR, FIVE, SIX, SEVEN, EIGHT, NINE"⟩,
   ⟨0x3A, "", "COLON, SEMICOLON, LESS-THAN SIGN, EQUALS SIGN, GREATER-THAN SIGN, QUESTION MARK,
      COMMERCIAL AT"⟩,
   ⟨0x41, "LATIN CAPITAL LETTER", "A, B, C, D, E, F, G, H, I, J, K, L, M, N, O, P, Q, R, S, T, U,
      V, W, X, Y, Z"⟩,
   ⟨0x5B, "", "LEFT SQUARE BRACKET, REVERSE SOLIDUS, RIGHT SQUARE BRACKET, CIRCUMFLEX ACCENT, LOW
      LINE, GRAVE ACCENT"⟩,
   ⟨0x61, "LATIN SMALL LETTER", "A, B, C, D, E, F, G, H, I, J, K, L, M, N, O, P, Q, R, S, T, U, V,
      W, X, Y, Z"⟩,
   ⟨0x7B, "", "LEFT CURLY BRACKET, VERTICAL LINE, RIGHT CURLY BRACKET, TILDE"⟩,
   ⟨0xA0, "", "NO-BREAK SPACE, INVERTED EXCLAMATION MARK, CENT SIGN, POUND SIGN, CURRENCY SIGN, YEN
      SIGN, BROKEN BAR, SECTION SIGN, DIAERESIS, COPYRIGHT SIGN, FEMININE ORDINAL INDICATOR,
      LEFT-POINTING DOUBLE ANGLE QUOTATION MARK, NOT SIGN, SOFT HYPHEN, REGISTERED SIGN, MACRON,
      DEGREE SIGN, PLUS-MINUS SIGN"⟩,
   ⟨0xB2, "SUPERSCRIPT", "TWO, THREE"⟩,
   ⟨0xB4, "", "ACUTE ACCENT, MICRO SIGN, PILCROW SIGN, MIDDLE DOT, CEDILLA"⟩,
   ⟨0xB9, "SUPERSCRIPT", "ONE"⟩,
   ⟨0xBA, "", "MASCULINE ORDINAL INDICATOR, RIGHT-POINTING DOUBLE ANGLE QUOTATION MARK"⟩,
   ⟨0xBC, "VULGAR FRACTION", "ONE QUARTER, ONE HALF, THREE QUARTERS"⟩,
   ⟨0xBF, "", "INVERTED QUESTION MARK"⟩,
   ⟨0xC0, "LATIN CAPITAL LETTER", "A WITH GRAVE, A WITH ACUTE, A WITH CIRCUMFLEX, A WITH TILDE, A
      WITH DIAERESIS, A WITH RING ABOVE, AE, C WITH CEDILLA, E WITH GRAVE, E WITH ACUTE, E WITH
      CIRCUMFLEX, E WITH DIAERESIS, I WITH GRAVE, I WITH ACUTE, I WITH CIRCUMFLEX, I WITH
      DIAERESIS, ETH, N WITH TILDE, O WITH GRAVE, O WITH ACUTE, O WITH CIRCUMFLEX, O WITH TILDE, O
      WITH DIAERESIS"⟩,
   ⟨0xD7, "", "MULTIPLICATION SIGN"⟩,
   ⟨0xD8, "LATIN CAPITAL LETTER", "O WITH STROKE, U WITH GRAVE, U WITH ACUTE, U WITH CIRCUMFLEX, U
      WITH DIAERESIS, Y WITH ACUTE, THORN"⟩,
   ⟨0xDF, "LATIN SMALL LETTER", "SHARP S, A WITH GRAVE, A WITH ACUTE, A WITH CIRCUMFLEX, A WITH
      TILDE, A WITH DIAERESIS, A WITH RING ABOVE, AE, C WITH CEDILLA, E WITH GRAVE, E WITH ACUTE, E
      WITH CIRCUMFLEX, E WITH DIAERESIS, I WITH GRAVE, I WITH ACUTE, I WITH CIRCUMFLEX, I WITH
      DIAERESIS, ETH, N WITH TILDE, O WITH GRAVE, O WITH ACUTE, O WITH CIRCUMFLEX, O WITH TILDE, O
      WITH DIAERESIS"⟩,
   ⟨0xF7, "", "DIVISION SIGN"⟩,
   ⟨0xF8, "LATIN SMALL LETTER", "O WITH STROKE, U WITH GRAVE, U WITH ACUTE, U WITH CIRCUMFLEX, U
      WITH DIAERESIS, Y WITH ACUTE, THORN, Y WITH DIAERESIS"⟩,
   ⟨0x391, "GREEK CAPITAL LETTER", "ALPHA, BETA, GAMMA, DELTA, EPSILON, ZETA, ETA, THETA, IOTA,
      KAPPA, LAMDA, MU, NU, XI, OMICRON, PI, RHO"⟩,
   ⟨0x3A3, "GREEK CAPITAL LETTER", "SIGMA, TAU, UPSILON, PHI, CHI, PSI, OMEGA"⟩,
   ⟨0x3B1, "GREEK SMALL LETTER", "ALPHA, BETA, GAMMA, DELTA, EPSILON, ZETA, ETA, THETA, IOTA,
      KAPPA, LAMDA, MU, NU, XI, OMICRON, PI, RHO, FINAL SIGMA, SIGMA, TAU, UPSILON, PHI, CHI, PSI,
      OMEGA"⟩,
   ⟨0x1E9E, "LATIN CAPITAL LETTER", "SHARP S"⟩,
   ⟨0x2010, "", "HYPHEN, NON-BREAKING HYPHEN, FIGURE DASH, EN DASH, EM DASH, HORIZONTAL BAR, DOUBLE
      VERTICAL LINE, DOUBLE LOW LINE, LEFT SINGLE QUOTATION MARK, RIGHT SINGLE QUOTATION MARK,
      SINGLE LOW-9 QUOTATION MARK, SINGLE HIGH-REVERSED-9 QUOTATION MARK, LEFT DOUBLE QUOTATION
      MARK, RIGHT DOUBLE QUOTATION MARK, DOUBLE LOW-9 QUOTATION MARK, DOUBLE HIGH-REVERSED-9
      QUOTATION MARK, DAGGER, DOUBLE DAGGER, BULLET"⟩,
   ⟨0x2026, "", "HORIZONTAL ELLIPSIS"⟩, ⟨0x2032, "", "PRIME, DOUBLE PRIME"⟩,
   ⟨0x20AC, "", "EURO SIGN"⟩, ⟨0x2122, "", "TRADE MARK SIGN"⟩,
   ⟨0x2190, "", "LEFTWARDS ARROW, UPWARDS ARROW, RIGHTWARDS ARROW, DOWNWARDS ARROW, LEFT RIGHT
      ARROW, UP DOWN ARROW"⟩,
   ⟨0x21D2, "", "RIGHTWARDS DOUBLE ARROW"⟩,
   ⟨0x2200, "", "FOR ALL, COMPLEMENT, PARTIAL DIFFERENTIAL, THERE EXISTS, THERE DOES NOT EXIST,
      EMPTY SET, INCREMENT, NABLA, ELEMENT OF"⟩,
   ⟨0x2211, "", "N-ARY SUMMATION, MINUS SIGN, MINUS-OR-PLUS SIGN"⟩,
   ⟨0x221A, "", "SQUARE ROOT"⟩, ⟨0x221E, "", "INFINITY"⟩,
   ⟨0x2229, "", "INTERSECTION, UNION, INTEGRAL"⟩, ⟨0x2248, "", "ALMOST EQUAL TO"⟩,
   ⟨0x2260, "", "NOT EQUAL TO"⟩,
   ⟨0x2264, "", "LESS-THAN OR EQUAL TO, GREATER-THAN OR EQUAL TO"⟩,
   ⟨0x2588, "", "FULL BLOCK"⟩, ⟨0x25A0, "", "BLACK SQUARE, WHITE SQUARE"⟩,
   ⟨0x25CB, "", "WHITE CIRCLE"⟩, ⟨0x25CF, "", "BLACK CIRCLE"⟩,
   ⟨0x2600, "", "BLACK SUN WITH RAYS, CLOUD, UMBRELLA, SNOWMAN, COMET, BLACK STAR, WHITE STAR"⟩,
   ⟨0x2620, "", "SKULL AND CROSSBONES"⟩, ⟨0x263A, "", "WHITE SMILING FACE"⟩,
   ⟨0x2660, "", "BLACK SPADE SUIT, WHITE HEART SUIT, WHITE DIAMOND SUIT, BLACK CLUB SUIT, WHITE
      SPADE SUIT, BLACK HEART SUIT, BLACK DIAMOND SUIT, WHITE CLUB SUIT"⟩,
   ⟨0x266D, "", "MUSIC FLAT SIGN, MUSIC NATURAL SIGN, MUSIC SHARP SIGN"⟩,
   ⟨0x2713, "", "CHECK MARK, HEAVY CHECK MARK"⟩, ⟨0x2764, "", "HEAVY BLACK HEART"⟩,
   ⟨0x1F389, "", "PARTY POPPER"⟩, ⟨0x1F40D, "", "SNAKE"⟩, ⟨0x1F44D, "", "THUMBS UP SIGN"⟩,
   ⟨0x1F4A9, "", "PILE OF POO"⟩, ⟨0x1F514, "", "BELL"⟩, ⟨0x1F525, "", "FIRE"⟩,
   ⟨0x1F600, "", "GRINNING FACE, GRINNING FACE WITH SMILING EYES, FACE WITH TEARS OF JOY, SMILING
      FACE WITH OPEN MOUTH, SMILING FACE WITH OPEN MOUTH AND SMILING EYES"⟩,
   ⟨0x1F680, "", "ROCKET"⟩, ⟨0x0, "", "NULL"⟩,
   ⟨0x7, "", "ALERT, BACKSPACE, CHARACTER TABULATION, LINE FEED, LINE TABULATION, FORM FEED,
      CARRIAGE RETURN"⟩,
   ⟨0x1B, "", "ESCAPE"⟩, ⟨0x7F, "", "DELETE"⟩, ⟨0x9, "", "TAB, NEW LINE"⟩,
   ⟨0x9, "", "HORIZONTAL TABULATION, END OF LINE"⟩, ⟨0x7, "", "BEL, BS, HT, LF, VT, FF, CR"⟩,
   ⟨0x1B, "", "ESC"⟩, ⟨0xA0, "", "NBSP"⟩, ⟨0x200B, "", "ZERO WIDTH SPACE"⟩,
   ⟨0xFEFF, "", "ZERO WIDTH NO-BREAK SPACE"⟩, ⟨0xFEFF, "", "BYTE ORDER MARK"⟩]

end Keystroke
