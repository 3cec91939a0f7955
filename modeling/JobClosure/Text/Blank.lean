import JobClosure.Text.Ranges

/-!
# Blanks

Three sets of blanks matter: those that separate forms and may surround a number (`isBlank`), those that
separate the tokens of a type spelling (`isSpellingBlank`), and the wider set that may surround a number
written with characters beyond ASCII (`isWideBlank`).
-/

namespace JobClosure.Text

/-- The six blanks of ASCII: tab, line feed, vertical tab, form feed, carriage return and space. -/
def isBlank (c : Char) : Bool :=
  c == ' ' || (0x9 ≤ c.toNat && c.toNat ≤ 0xD)

/-- The blanks between the tokens of a type spelling: space, tab, form feed and the two line ends. -/
def isSpellingBlank (c : Char) : Bool :=
  c == ' ' || c == '\t' || c == '\x0c' || c == '\r' || c == '\n'

/-- White space beyond ASCII. -/
def wideBlanks : Ranges :=
  [(0x85, 0x85), (0xA0, 0xA0), (0x1680, 0x1680), (0x2000, 0x200A), (0x2028, 0x2029), (0x202F, 0x202F),
   (0x205F, 0x205F), (0x3000, 0x3000)]

/-- The six blanks of ASCII and the white space beyond it. -/
def isWideBlank (c : Char) : Bool :=
  isBlank c || wideBlanks.contains c

/-- A text without the wide blanks at its two ends. -/
def trimBlanks (cs : List Char) : List Char :=
  ((cs.dropWhile isWideBlank).reverse.dropWhile isWideBlank).reverse

end JobClosure.Text
