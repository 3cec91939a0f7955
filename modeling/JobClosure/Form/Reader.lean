import JobClosure.Form.Basic
import JobClosure.Form.Token
import JobClosure.Numeral.Real

/-!
# Reading a form

The reader goes through the tokens once and keeps the lists that are still open. An apostrophe quotes the
form after it. An atom is a whole number if it writes one, else a real number if it writes one, else a
symbol; its escapes are gone by then. `Form.read` wants exactly one form.
-/

namespace JobClosure.Form

/-- The form that an atom stands for. -/
def ofAtom (content : List Char) : Form :=
  match Numeral.readWhole content with
  | .ok value => .whole value
  | .error _ =>
    match Numeral.readReal? content with
    | some value => .real value
    | none => .symbol (String.ofList content)

/-- The form of a closed list. -/
def ofItems : Bracket → List Form → Form
  | .round, items => .list items
  | .square, items => .brackets items

/-- A list that is being read: its items so far, in reverse, and the positions of the apostrophes that
wait for a form, the last one first. -/
structure OpenList where
  items : List Form := []
  apostrophes : List Nat := []
  deriving Repr

namespace OpenList

/-- Adds a form, quoted once for each waiting apostrophe. -/
def push (level : OpenList) (form : Form) : OpenList :=
  ⟨level.apostrophes.foldl (fun form _ => .quote form) form :: level.items, []⟩

/-- The items of a list that ends here. No apostrophe may still wait. -/
def finish (level : OpenList) : Except ReadFault (List Form) :=
  match level.apostrophes with
  | [] => .ok level.items.reverse
  | position :: _ => .error (.nothingQuoted position)

end OpenList

/-- Reads tokens into the innermost open list. `outer` holds the lists around it, innermost first, each
with the bracket that opened the next one. -/
def readTokens (level : OpenList) (outer : List (OpenList × Bracket)) :
    List Token → Except ReadFault (List Form)
  | [] => do
    let items ← level.finish
    match outer with
    | [] => .ok items
    | (_, bracket) :: _ => .error (.unclosed bracket.close none)
  | .opening bracket :: rest => readTokens {} ((level, bracket) :: outer) rest
  | .closing bracket remainder :: rest => do
    let items ← level.finish
    match outer with
    | [] => .error (.surplus remainder)
    | (parent, opened) :: outer =>
      if bracket = opened then readTokens (parent.push (ofItems bracket items)) outer rest
      else .error (.unclosed opened.close (some bracket.close))
  | .apostrophe position :: rest =>
    readTokens { level with apostrophes := position :: level.apostrophes } outer rest
  | .text content :: rest => readTokens (level.push (.text (String.ofList content))) outer rest
  | .atom content :: rest => readTokens (level.push (ofAtom content)) outer rest
  | .broken fault :: _ => .error fault

/-- All forms of a document. -/
def readAll (document : String) : Except ReadFault (List Form) :=
  readTokens {} [] (tokens document.toList)

/-- The only form of a document. -/
def read (document : String) : Except ReadFault Form := do
  match ← readAll document with
  | [form] => .ok form
  | _ => .error .notOneForm

end JobClosure.Form
