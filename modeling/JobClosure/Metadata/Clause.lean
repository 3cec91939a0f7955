import JobClosure.Form.Basic

/-!
# Clauses

A document is built from clauses: lists that start with a symbol, the head, followed by operands. This
module has the ways to take operands from a clause and the faults of clauses.
-/

namespace JobClosure

/-- What an operand is for. -/
inductive Operand
  | moduleName
  | reference
  | typeName
  | genericParameter
  | baseType
  | interface
  | attribute
  | fieldName
  | fieldType
  | methodName
  | parameter
  | member
  | sourceFile
  deriving DecidableEq, Repr

def Operand.words : Operand → String
  | .moduleName => "module name"
  | .reference => "reference"
  | .typeName => "type name"
  | .genericParameter => "generic parameter"
  | .baseType => "base type"
  | .interface => "interface"
  | .attribute => "attribute"
  | .fieldName => "field name"
  | .fieldType => "field type"
  | .methodName => "method name"
  | .parameter => "parameter"
  | .member => "member"
  | .sourceFile => "source file"

/-- Why a clause cannot be read. -/
inductive ClauseFault
  | notText (operand : Operand) (form : Form)
  | missingOperand
  | unknownInType (clause : Form)
  | unknownInMethod (clause : Form)
  | unknownInSymbols (entry : Form)
  | notSymbols
  deriving Repr

def ClauseFault.message : ClauseFault → String
  | .notText operand form => s!"expected a quoted string for {operand.words}, got {form.shown}"
  | .missingOperand => "list index out of range"
  | .unknownInType clause => s!"unknown type clause {clause.shown}"
  | .unknownInMethod clause => s!"unknown method clause {clause.shown}"
  | .unknownInSymbols entry => s!"unknown symbol entry {entry.shown}"
  | .notSymbols => "expected (symbols ...)"

namespace Form

/-- The operands of a clause: everything after its head. -/
def operands : Form → List Form
  | .list (_ :: rest) => rest
  | _ => []

def operand (clause : Form) (position : Nat) : Except ClauseFault Form :=
  match clause.operands[position]? with
  | some form => .ok form
  | none => .error .missingOperand

/-- The content of a form that must be a quoted text. -/
def asText (form : Form) (operand : Operand) : Except ClauseFault String :=
  match form.text? with
  | some content => .ok content
  | none => .error (.notText operand form)

def textOperand (clause : Form) (position : Nat) (operand : Operand) : Except ClauseFault String := do
  (← clause.operand position).asText operand

/-- All operands, which must be quoted texts. -/
def textOperands (clause : Form) (operand : Operand) : Except ClauseFault (List String) :=
  clause.operands.mapM (·.asText operand)

end Form

end JobClosure
