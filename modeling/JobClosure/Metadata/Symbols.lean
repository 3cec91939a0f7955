import JobClosure.Error
import JobClosure.Form.Layout
import JobClosure.Form.Reader
import JobClosure.Metadata.Basic

/-!
# Symbol documents

A symbol document gives the source location of members: file, line and perhaps column. Lines and columns
may be written as any number or as a text that writes a whole number. A member that is given twice keeps
its first place and takes its last location. Written documents list the members in ascending order.
-/

namespace JobClosure

/-- Source locations of members. -/
abbrev Symbols := List (String × SourceLocation)

namespace Symbols

/-- The whole number that a line or column operand gives. -/
def wholeOperand : Form → Except Error Int
  | .whole value => .ok value
  | .real value => (Numeral.wholeOfReal value).mapError .number
  | .text content => (Numeral.wholeOfText content).mapError .number
  | .symbol name => (Numeral.wholeOf name (Form.symbol name).shown).mapError .number
  | .list _ => .error (.number (.notNumeric "list"))
  | .brackets _ => .error (.number (.notNumeric "Brackets"))
  | .quote _ => .error (.number (.notNumeric "Quoted"))

/-- Reads the entry of one member: the location first, then the name. -/
def readEntry (entry : Form) : Except Error (String × SourceLocation) := do
  if entry.head? ≠ some "member" then .error (.clause (.unknownInSymbols entry))
  else
    let file ← (entry.textOperand 1 .sourceFile).mapError .clause
    let line ← wholeOperand (← (entry.operand 2).mapError .clause)
    let column ← wholeOperand ((entry.operands[3]?).getD (.whole 0))
    let member ← (entry.textOperand 0 .member).mapError .clause
    .ok (member, ⟨file, line, column⟩)

/-- The table made of entries. -/
def ofEntries (entries : List (String × SourceLocation)) : Symbols :=
  entries.foldl (fun table entry => setKey table entry.1 entry.2) []

def ofDocument (document : String) : Except Error Symbols := do
  let form ← (Form.read document).mapError .reading
  if form.head? ≠ some "symbols" then .error (.clause .notSymbols)
  else .ok (ofEntries (← form.operands.mapM readEntry))

/-- The entry of one member as a form. -/
def entryForm (entry : String × SourceLocation) : Form :=
  .list [.symbol "member", .text entry.1, .text entry.2.file, .whole entry.2.line, .whole entry.2.column]

/-- The entries in ascending order of their members. -/
def sorted (symbols : Symbols) : Symbols := symbols.mergeSort (fun a b => decide (a.1 ≤ b.1))

def toForm (symbols : Symbols) : Form := .list (.symbol "symbols" :: symbols.sorted.map entryForm)

def document (symbols : Symbols) : String := symbols.toForm.document

end Symbols

end JobClosure
