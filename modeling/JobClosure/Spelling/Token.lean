import JobClosure.Text.Blank

/-!
# The tokens of a type spelling

A spelling consists of names, parameters, angle brackets and commas, with blanks between them. Each token
is as long as it can be. `Spelling.tokens?` has no answer for a text that holds anything else.
-/

namespace JobClosure.Spelling

/-- A token of a type spelling. -/
inductive Token
  | name (content : List Char)
  | parameter (ofMethod : Bool) (word : List Char)
  | opening
  | comma
  | closing
  deriving DecidableEq, Repr

/-- A letter of ASCII or an underscore. -/
def isNameStart (c : Char) : Bool := c.isAlpha || c == '_'

/-- A letter or digit of ASCII or an underscore. -/
def isWordChar (c : Char) : Bool := c.isAlphanum || c == '_'

/-- A character that a name may have after its first one. -/
def isNameChar (c : Char) : Bool :=
  isWordChar c || c == '.' || c == '\x60' || c == '/' || c == '+'

/-- What the characters read last belong to. Those of a token are kept in reverse. -/
inductive Mode
  | between
  | inName (read : List Char)
  /-- After the mark of a type's parameter, or after both marks of a method's. -/
  | afterMark (ofMethod : Bool)
  | inWord (ofMethod : Bool) (read : List Char)
  deriving DecidableEq, Repr

/-- Reads a character between tokens. -/
def stepBetween (c : Char) : Option (List Token × Mode) :=
  if Text.isSpellingBlank c then some ([], .between)
  else if c == '<' then some ([.opening], .between)
  else if c == ',' then some ([.comma], .between)
  else if c == '>' then some ([.closing], .between)
  else if c == '!' then some ([], .afterMark false)
  else if isNameStart c then some ([], .inName [c])
  else none

/-- Reads one character: the tokens it completes and what the next character belongs to. -/
def step (mode : Mode) (c : Char) : Option (List Token × Mode) :=
  match mode with
  | .between => stepBetween c
  | .inName read =>
    if isNameChar c then some ([], .inName (c :: read))
    else (stepBetween c).map fun (tokens, next) => (.name read.reverse :: tokens, next)
  | .afterMark ofMethod =>
    if isWordChar c then some ([], .inWord ofMethod [c])
    else if c == '!' && !ofMethod then some ([], .afterMark true)
    else none
  | .inWord ofMethod read =>
    if isWordChar c then some ([], .inWord ofMethod (c :: read))
    else (stepBetween c).map fun (tokens, next) => (.parameter ofMethod read.reverse :: tokens, next)

/-- The tokens that the end of the text completes. -/
def atEnd : Mode → Option (List Token)
  | .between => some []
  | .inName read => some [.name read.reverse]
  | .afterMark _ => none
  | .inWord ofMethod read => some [.parameter ofMethod read.reverse]

/-- The tokens of a text read in `mode`. -/
def tokensFrom? (mode : Mode) : List Char → Option (List Token)
  | [] => atEnd mode
  | c :: rest => do
    let (tokens, next) ← step mode c
    let more ← tokensFrom? next rest
    some (tokens ++ more)

/-- The tokens of a spelling. -/
def tokens? (text : List Char) : Option (List Token) := tokensFrom? .between text

end JobClosure.Spelling
