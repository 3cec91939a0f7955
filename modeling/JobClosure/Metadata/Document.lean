import JobClosure.Error
import JobClosure.Form.Reader
import JobClosure.Metadata.Basic

/-!
# Reading module documents

A module document is one form: the head, the name of the module and clauses for references and types. The
clauses of a type and of a method are read one by one into parts, and the definition is put together from
the parts: of the clauses that set something the last one counts, the others add up. So clauses with
different heads may stand in any order; in particular the generic parameters of a type may be declared
after the spellings that use them.

Bodies are kept as forms. A body that means nothing does not keep its module from being read.
-/

namespace JobClosure

/-- What one clause contributes to a method. -/
inductive MethodPart
  | generic (names : List String)
  | params (types : List String)
  | body (forms : List Form)
  deriving Repr

namespace MethodPart

def generic? : MethodPart → Option (List String)
  | .generic names => some names
  | _ => none

def params? : MethodPart → Option (List String)
  | .params types => some types
  | _ => none

def body? : MethodPart → Option (List Form)
  | .body forms => some forms
  | _ => none

def read (clause : Form) : Except ClauseFault MethodPart :=
  match clause.head? with
  | some "generic" => .generic <$> clause.textOperands .genericParameter
  | some "params" => .params <$> clause.textOperands .parameter
  | some "body" => .ok (.body clause.operands)
  | _ => .error (.unknownInMethod clause)

end MethodPart

/-- The last of the values that `choose` finds. -/
def lastOf (choose : α → Option β) (parts : List α) : Option β := (parts.filterMap choose).getLast?

def Method.ofParts (declaringType module name : String) (parts : List MethodPart) : Method where
  id := ⟨declaringType, name, (lastOf MethodPart.params? parts).getD []⟩
  genericParams := (lastOf MethodPart.generic? parts).getD []
  body := lastOf MethodPart.body? parts
  module := module

def Method.read (declaringType module : String) (form : Form) : Except ClauseFault Method := do
  let name ← form.textOperand 0 .methodName
  let parts ← (form.operands.drop 1).mapM MethodPart.read
  .ok (.ofParts declaringType module name parts)

/-- What one clause contributes to a type. -/
inductive TypePart
  | generic (names : List String)
  | base (ref : TypeRef)
  | interfaces (refs : List TypeRef)
  | attributes (names : List String)
  | interface
  | field (field : Field)
  | method (method : Method)
  deriving Repr

namespace TypePart

def generic? : TypePart → Option (List String)
  | .generic names => some names
  | _ => none

def base? : TypePart → Option TypeRef
  | .base ref => some ref
  | _ => none

def interfaces? : TypePart → Option (List TypeRef)
  | .interfaces refs => some refs
  | _ => none

def attributes? : TypePart → Option (List String)
  | .attributes names => some names
  | _ => none

/-- Whether the type is marked as an interface. -/
def isInterface : TypePart → Bool
  | .interface => true
  | _ => false

def field? : TypePart → Option Field
  | .field declared => some declared
  | _ => none

def method? : TypePart → Option Method
  | .method declared => some declared
  | _ => none

/-- A spelling of a type that occurs in the definition of `typeName`. -/
def readRef (scope : Scope) (text : String) : Except Error TypeRef :=
  (scope.parseNamed text).mapError fun
    | .refused refusal => .typeReference scope.typeName refusal
    | .position fault => .number fault

def read (module : String) (scope : Scope) (clause : Form) : Except Error TypePart :=
  match clause.head? with
  | some "generic" => lift (.generic <$> clause.textOperands .genericParameter)
  | some "base" => do
    .ok (.base (← readRef scope (← lift (clause.textOperand 0 .baseType))))
  | some "interfaces" => do
    let texts ← lift (clause.textOperands .interface)
    .ok (.interfaces (← texts.mapM (readRef scope)))
  | some "attributes" => lift (.attributes <$> clause.textOperands .attribute)
  | some "interface" => .ok .interface
  | some "field" => do
    let name ← lift (clause.textOperand 0 .fieldName)
    let text ← lift (clause.textOperand 1 .fieldType)
    .ok (.field ⟨name, ← readRef scope text⟩)
  | some "method" => lift (.method <$> Method.read scope.typeName module clause)
  | _ => .error (.clause (.unknownInType clause))
where
  /-- A fault of a clause as an error. -/
  lift {α : Type} (result : Except ClauseFault α) : Except Error α := result.mapError .clause

end TypePart

namespace TypeDef

/-- The generic parameters that the clauses of a type declare. -/
def readGenericParams (clauses : List Form) : Except ClauseFault (List String) := do
  let declared ← (clauses.filter fun clause => clause.head? == some "generic").mapM
    (·.textOperands .genericParameter)
  .ok (declared.getLast?.getD [])

def ofParts (module fullName : String) (genericParams : List String) (parts : List TypePart) : TypeDef where
  fullName := fullName
  genericParams := genericParams
  base := lastOf TypePart.base? parts
  interfaces := (parts.filterMap TypePart.interfaces?).flatten
  attributes := (lastOf TypePart.attributes? parts).getD []
  isInterface := parts.any TypePart.isInterface
  methods := parts.filterMap TypePart.method?
  fields := parts.filterMap TypePart.field?
  module := module

def read (module : String) (form : Form) : Except Error TypeDef := do
  let fullName ← (form.textOperand 0 .typeName).mapError .clause
  let clauses := form.operands.drop 1
  let genericParams ← (readGenericParams clauses).mapError .clause
  let scope : Scope := { typeName := fullName, typeParams := genericParams }
  let parts ← clauses.mapM (TypePart.read module scope)
  .ok (.ofParts module fullName genericParams parts)

end TypeDef

/-- What one clause contributes to a module. -/
inductive ModulePart
  | references (names : List String)
  | type (type : TypeDef)
  deriving Repr

namespace ModulePart

def references? : ModulePart → Option (List String)
  | .references names => some names
  | _ => none

def type? : ModulePart → Option TypeDef
  | .type declared => some declared
  | _ => none

def read (module : String) (path : Option Path) (clause : Form) : Except Error ModulePart :=
  match clause.head? with
  | some "reference" => (ModulePart.references <$> clause.textOperands .reference).mapError .clause
  | some "type" => ModulePart.type <$> TypeDef.read module clause
  | _ => .error (.unknownModuleClause clause path)

end ModulePart

namespace Module

/-- Reads a module from the form of its document. -/
def ofForm (path : Option Path) (form : Form) : Except Error Module := do
  match form.head?, form.operands with
  | some "module", nameForm :: clauses =>
    let name ← (nameForm.asText .moduleName).mapError .clause
    let parts ← clauses.mapM (ModulePart.read name path)
    .ok
      { name, path
        types := parts.filterMap ModulePart.type?
        references := (parts.filterMap ModulePart.references?).flatten }
  | _, _ => .error (.notAModule path)

def ofDocument (path : Option Path) (document : String) : Except Error Module := do
  ofForm path (← (Form.read document).mapError .reading)

end Module

end JobClosure
