import JobClosure.Distinct
import JobClosure.Error
import JobClosure.Index.Identity
import JobClosure.LogLine

/-!
# The index of definitions

An index is a snapshot of the definitions in a list of modules. It keeps the types of every module in
their order, and one canonical definition per type name and per method identity: the first one. Of several
modules with one identity only the first is indexed.
-/

namespace JobClosure

/-- The definitions of a list of modules. -/
structure Index where
  /-- The identities of the modules, each with all its types. -/
  modules : List (String × List TypeDef) := []
  /-- The first definition of every type name. -/
  types : List TypeDef := []
  /-- The first definition of every method identity. -/
  methods : List Method := []
  deriving Repr, Inhabited

namespace Index

/-- The canonical definition of a type name. -/
def type? (ix : Index) (name : String) : Option TypeDef := ix.types.find? (·.fullName == name)

/-- The method with an identity. -/
def method? (ix : Index) (id : MethodId) : Option Method := ix.methods.find? (·.id == id)

/-- Adds a definition from the module called `module`. A name that is taken is reported instead. -/
def addType (module : String) (state : Index × List LogLine) (type : TypeDef) : Index × List LogLine :=
  let (ix, log) := state
  match ix.type? type.fullName with
  | some kept => (ix, log ++ [.duplicateType type.fullName kept.module module])
  | none =>
    let methods := type.methods.foldl (addDistinct (·.id)) ix.methods
    ({ ix with types := ix.types ++ [type], methods }, log)

/-- Adds a module, unless one with its identity is there. -/
def addModule (state : Index × List LogLine) (m : Module) : Index × List LogLine :=
  let (ix, log) := state
  if ix.modules.any (·.1 == m.identity) then (ix, log)
  else
    let entered := { ix with modules := ix.modules ++ [(m.identity, m.types)] }
    m.types.foldl (addType m.name) (entered, log)

/-- The index of a list of modules, and what there is to log about it. -/
def build (modules : List Module) : Index × List LogLine := modules.foldl addModule ({}, [])

/-- The index of a list of modules. -/
def ofModules (modules : List Module) : Index := (build modules).1

/-- The canonical definition of an identity. -/
def typeOf? (ix : Index) (identity : Identity) : Option TypeDef :=
  identity.canonicalName.bind ix.type?

/-- The types of a module, as they were when the index was built. -/
def typesOf (ix : Index) (m : Module) : List TypeDef := (ix.modules.lookup m.identity).getD []

/-- The first type of a module that an identity names. -/
def typeIn? (ix : Index) (m : Module) (identity : Identity) : Option TypeDef :=
  identity.canonicalName.bind fun name => (ix.typesOf m).find? (·.fullName == name)

def allTypes (ix : Index) : List TypeDef := ix.modules.flatMap (·.2)

/-- The methods of all types of all modules, the first for every identity. -/
def methodTable (ix : Index) : List Method := distinctBy (·.id) (ix.allTypes.flatMap (·.methods))

def moduleIdentities (ix : Index) : List String := ix.modules.map (·.1)

/-- The canonical definition of the type that declares a method. -/
def declaringType? (ix : Index) (method : Method) : Option TypeDef := ix.type? method.id.declaringType

/-- Of several candidates the first with as many generic parameters as wanted, else the first. -/
def bestOf (candidates : List Method) (arity : Option Nat) : Option Method :=
  (candidates.find? fun m => some m.genericParams.length == arity).or candidates.head?

/-- The overloads of a name on a type, restricted to a parameter list if one is given. -/
def overloads (type : TypeDef) (name : String) (parameters : Option (List String)) : List Method :=
  type.methods.filter fun m => m.id.name == name && parameters.all (m.id.parameters == ·)

/-- The best overload of a name on a type: the given parameter list must match exactly, then the number
of generic parameters decides, then the order of declaration. -/
def findMethod (ix : Index) (identity : Identity) (name : String) (parameters : Option (List String))
    (arity : Option Nat) : Except LookupFault Method :=
  match ix.typeOf? identity with
  | none => .error (.unknownType identity.canonicalName)
  | some type =>
    match bestOf (overloads type name parameters) arity, overloads type name none, parameters with
    | some method, _, _ => .ok method
    | none, _ :: _, some wanted => .error (.unknownOverload type.fullName name wanted)
    | none, _, _ => .error (.unknownMethod type.fullName name)

end Index

end JobClosure
