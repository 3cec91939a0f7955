import JobClosure.Text.Blank

/-!
# The tokens of a document

A document is a sequence of brackets, apostrophes, quoted texts and atoms, separated by blanks and by
comments, which run from a semicolon to the end of the line. Backslashes escape characters of texts and of
atoms. `Form.tokens` splits a document; a document that ends inside a text or after a backslash yields a
`broken` token at that place, so faults keep their order of occurrence.
-/

namespace JobClosure.Form

/-- The two kinds of brackets. -/
inductive Bracket
  | round
  | square
  deriving DecidableEq, Repr

/-- The character that closes a bracket. -/
def Bracket.close : Bracket → Char
  | .round => ')'
  | .square => ']'

def Bracket.opened? (c : Char) : Option Bracket :=
  if c == '(' then some .round else if c == '[' then some .square else none

def Bracket.closed? (c : Char) : Option Bracket :=
  if c == ')' then some .round else if c == ']' then some .square else none

/-- Why a text is not exactly one form. -/
inductive ReadFault
  /-- There is no form, or more than one. -/
  | notOneForm
  /-- A quoted text does not end. -/
  | openText
  /-- The document ends after a backslash. -/
  | danglingEscape
  /-- Where `expected` should close a list there is `got`, or nothing. -/
  | unclosed (expected : Char) (got : Option Char)
  /-- A closing bracket that closes nothing; `rest` is the document from there on. -/
  | surplus (rest : List Char)
  /-- No form follows the apostrophe at this position. -/
  | nothingQuoted (position : Nat)
  deriving DecidableEq, Repr

/-- A token of a document. -/
inductive Token
  | opening (bracket : Bracket)
  /-- A closing bracket, with the document from the bracket on. -/
  | closing (bracket : Bracket) (rest : List Char)
  /-- An apostrophe and its position in the document. -/
  | apostrophe (position : Nat)
  | text (content : List Char)
  | atom (content : List Char)
  | broken (fault : ReadFault)
  deriving DecidableEq, Repr

/-- What the characters read last belong to. Characters of a text or an atom are kept in reverse. -/
inductive Mode
  | between
  | comment
  | inText (read : List Char)
  | escapeInText (read : List Char)
  | inAtom (read : List Char)
  | escapeInAtom (read : List Char)
  deriving DecidableEq, Repr

/-- The characters, in reverse, that a backslash before `c` stands for in a text. -/
def textEscape (c : Char) : List Char :=
  if c == '"' || c == '\\' then [c]
  else if c == 'b' then ['\x08']
  else if c == 'f' then ['\x0c']
  else if c == 'n' then ['\n']
  else if c == 'r' then ['\r']
  else if c == 't' then ['\t']
  else [c, '\\']

/-- The characters that lose a backslash before them in an atom. -/
def atomEscapable : List Char :=
  ['\\', '\'', '\x60', '"', '(', ')', '[', ']', ' ', ',', '?', ';', '#']

/-- The characters, in reverse, that a backslash before `c` stands for in an atom. -/
def atomEscape (c : Char) : List Char :=
  if atomEscapable.contains c then [c] else [c, '\\']

/-- Whether an atom ends before `c`. -/
def endsAtom (c : Char) : Bool :=
  Text.isBlank c || c == '"' || c == ';' || (Bracket.opened? c).isSome || (Bracket.closed? c).isSome

/-- Reads `c` between tokens, at `position` and before `rest`. -/
def stepBetween (position : Nat) (c : Char) (rest : List Char) : List Token × Mode :=
  if Text.isBlank c then ([], .between)
  else if c == '"' then ([], .inText [])
  else if c == ';' then ([], .comment)
  else if c == '\'' then ([.apostrophe position], .between)
  else if c == '\\' then ([], .escapeInAtom [])
  else
    match Bracket.opened? c, Bracket.closed? c with
    | some bracket, _ => ([.opening bracket], .between)
    | none, some bracket => ([.closing bracket (c :: rest)], .between)
    | none, none => ([], .inAtom [c])

/-- Reads one character: the tokens it completes and what the next character belongs to. -/
def step (mode : Mode) (position : Nat) (c : Char) (rest : List Char) : List Token × Mode :=
  match mode with
  | .between => stepBetween position c rest
  | .comment => ([], if c == '\n' then .between else .comment)
  | .inText read =>
    if c == '"' then ([.text read.reverse], .between)
    else if c == '\\' then ([], .escapeInText read)
    else ([], .inText (c :: read))
  | .escapeInText read => ([], .inText (textEscape c ++ read))
  | .inAtom read =>
    if endsAtom c then
      let (tokens, next) := stepBetween position c rest
      (.atom read.reverse :: tokens, next)
    else if c == '\\' then ([], .escapeInAtom read)
    else ([], .inAtom (c :: read))
  | .escapeInAtom read => ([], .inAtom (atomEscape c ++ read))

/-- The tokens that the end of the document completes. -/
def atEnd : Mode → List Token
  | .between | .comment => []
  | .inText _ => [.broken .openText]
  | .escapeInText _ | .escapeInAtom _ => [.broken .danglingEscape]
  | .inAtom read => [.atom read.reverse]

/-- The tokens of a document from `position` on, read in `mode`. -/
def tokensFrom (mode : Mode) (position : Nat) : List Char → List Token
  | [] => atEnd mode
  | c :: rest =>
    let (tokens, next) := step mode position c rest
    tokens ++ tokensFrom next (position + 1) rest

/-- The tokens of a document. -/
def tokens (document : List Char) : List Token := tokensFrom .between 0 document

end JobClosure.Form
