import JobClosure.FileTree.Path
import JobClosure.Form.Basic
import JobClosure.Location
import JobClosure.TypeRef.Basic

/-!
# Metadata of modules

A module declares types, a type declares fields and methods, a method has a body of instruction forms. A
method is identified by its type, its name and its parameters; a type by its full name. Definitions never
change once they are read. A module does: types are added to it and removed from it.
-/

namespace JobClosure

/-- The identity of a method. -/
structure MethodId where
  declaringType : String
  name : String
  parameters : List String := []
  deriving DecidableEq, Repr, Inhabited

def MethodId.text (id : MethodId) : String :=
  id.declaringType ++ "::" ++ id.name ++ "(" ++ ", ".intercalate id.parameters ++ ")"

instance : ToString MethodId := ⟨MethodId.text⟩

/-- A method. Its body is absent, or a list of forms that are decoded only when they are needed. -/
structure Method where
  id : MethodId
  genericParams : List String := []
  body : Option (List Form) := none
  module : String := ""
  deriving Repr, Inhabited

/-- A generic parameter of a method. -/
def Method.parameter (method : Method) (name : String) : Parameter := ⟨method.id.text, name, true⟩

structure Field where
  name : String
  type : TypeRef
  deriving Repr, Inhabited, DecidableEq

/-- The definition of a type. With generic parameters it is a template. -/
structure TypeDef where
  fullName : String
  genericParams : List String := []
  base : Option TypeRef := none
  interfaces : List TypeRef := []
  attributes : List String := []
  isInterface : Bool := false
  methods : List Method := []
  fields : List Field := []
  module : String := ""
  deriving Repr, Inhabited

namespace TypeDef

/-- A generic parameter of a type. -/
def parameter (type : TypeDef) (name : String) : Parameter := ⟨type.fullName, name, false⟩

/-- The full name, with the generic parameters between angle brackets if there are any. -/
def text (type : TypeDef) : String :=
  if type.genericParams.isEmpty then type.fullName
  else type.fullName ++ "<" ++ ", ".intercalate type.genericParams ++ ">"

end TypeDef

/-- A module: its types in order of declaration, the names of the modules it refers to, and the source
locations of its members. A released module holds neither types nor locations. -/
structure Module where
  name : String
  path : Option Path := none
  types : List TypeDef := []
  references : List String := []
  symbols : List (String × SourceLocation) := []
  released : Bool := false
  deriving Repr, Inhabited

namespace Module

/-- The identity of a module: its resolved path, or its name if it has no file. -/
def identity (m : Module) : String :=
  match m.path with
  | some path => path.resolve.text
  | none => m.name

/-- The first type of a given name. -/
def type? (m : Module) (fullName : String) : Option TypeDef :=
  m.types.find? (·.fullName == fullName)

/-- The module without the types that satisfy a condition. -/
def removeTypes (m : Module) (condition : TypeDef → Bool) : Module :=
  { m with types := m.types.filter fun type => !condition type }

/-- The module with types added at the end. -/
def addTypes (m : Module) (types : List TypeDef) : Module := { m with types := m.types ++ types }

def release (m : Module) : Module := { m with types := [], symbols := [], released := true }

/-- The name and the number of types. -/
def text (m : Module) : String := s!"Module({m.name}, {m.types.length} types)"

def shown (m : Module) : String :=
  let path := match m.path with
    | some path => path.text
    | none => "None"
  let quoteAll (names : List String) := Form.shownItems (names.map Text.quoted)
  let types := quoteAll (m.types.map (·.fullName))
  let references := quoteAll m.references
  s!"Module(name={Text.quoted m.name}, path={path}, types={types}, references={references})"

end Module

/-- Sets the value of a key: in place if the key is there, else at the end. -/
def setKey (entries : List (String × α)) (key : String) (value : α) : List (String × α) :=
  if entries.any (·.1 == key) then
    entries.map fun entry => if entry.1 == key then (key, value) else entry
  else entries ++ [(key, value)]

end JobClosure
