import JobClosure.Form.Layout
import JobClosure.Metadata.Basic

/-!
# Writing module documents

Every module has exactly one written form. The clauses of a definition stand in a fixed order and a clause
that would say nothing is left out; all references stand in one clause.
-/

namespace JobClosure

/-- A clause with a head and texts as operands. -/
def textClause (head : String) (operands : List String) : Form := .list (.symbol head :: operands.map .text)

/-- The same clause, unless it has no operands. -/
def textClauseIfAny (head : String) (operands : List String) : List Form :=
  if operands.isEmpty then [] else [textClause head operands]

def Method.toForm (method : Method) : Form :=
  .list (.symbol "method" :: .text method.id.name ::
    (textClauseIfAny "generic" method.genericParams
      ++ textClauseIfAny "params" method.id.parameters
      ++ (method.body.map fun forms => Form.list (.symbol "body" :: forms)).toList))

def Field.toForm (field : Field) : Form := textClause "field" [field.name, field.type.spell]

def TypeDef.toForm (type : TypeDef) : Form :=
  .list (.symbol "type" :: .text type.fullName ::
    (textClauseIfAny "generic" type.genericParams
      ++ (if type.isInterface then [textClause "interface" []] else [])
      ++ (type.base.map fun ref => textClause "base" [ref.spell]).toList
      ++ textClauseIfAny "interfaces" (type.interfaces.map TypeRef.spell)
      ++ textClauseIfAny "attributes" type.attributes
      ++ type.fields.map Field.toForm
      ++ type.methods.map Method.toForm))

namespace Module

def toForm (m : Module) : Form :=
  .list (.symbol "module" :: .text m.name ::
    (textClauseIfAny "reference" m.references ++ m.types.map TypeDef.toForm))

def document (m : Module) : String := m.toForm.document

end Module

end JobClosure
