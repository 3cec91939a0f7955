import JobClosure.Numeral.Shortest
import JobClosure.Text.Quoted

/-!
# Forms

Documents and method bodies are made of forms: symbols, quoted texts, numbers, lists in round brackets,
lists in square brackets and quoted forms. This module holds the type, the questions that readers of
documents ask about a form, and how a form is shown inside a message.
-/

namespace JobClosure

open Numeral (Binary64)

/-- One form of a document. -/
inductive Form
  | symbol (name : String)
  | text (content : String)
  | whole (value : Int)
  | real (value : Binary64)
  | list (items : List Form)
  | brackets (items : List Form)
  | quote (form : Form)
  deriving Repr, Inhabited

namespace Form

/-- The name of a symbol; anything else has none. -/
def symbolName? : Form → Option String
  | .symbol name => some name
  | _ => none

/-- The symbol that a list in round brackets starts with. -/
def head? : Form → Option String
  | .list (first :: _) => first.symbolName?
  | _ => none

/-- The content of a quoted text. -/
def text? : Form → Option String
  | .text content => some content
  | _ => none

/-- Whether a form is a quoted text. -/
def isText (form : Form) : Bool := form.text?.isSome

def shownItems (items : List String) : String := "[" ++ ", ".intercalate items ++ "]"

mutual

def shown : Form → String
  | .symbol name => "Symbol(" ++ Text.quoted name ++ ")"
  | .text content => Text.quoted content
  | .whole value => toString value
  | .real value => value.text
  | .list items => shownItems (shownAll items)
  | .brackets items => "Brackets(I=" ++ shownItems (shownAll items) ++ ")"
  | .quote form => "Quoted(" ++ shown form ++ ")"

def shownAll : List Form → List String
  | [] => []
  | form :: rest => shown form :: shownAll rest

end

end Form

end JobClosure
