import JobClosure.Metadata.Basic

/-!
# Identities of types

A type can be asked for by its name, by a reference to it, by its definition, or by anything else that
carries a name. Every identity has at most one canonical name.
-/

namespace JobClosure

/-- Something that may identify a type. -/
inductive Identity
  | name (name : String)
  | ref (ref : TypeRef)
  | definition (type : TypeDef)
  /-- Something that knows its full name. -/
  | named (fullName : String)
  /-- A class of the running program: its module and its qualified name. -/
  | runtimeClass (module qualifiedName : String)
  /-- Anything that identifies no type. -/
  | other
  deriving Repr

/-- The canonical name of an identity. A reference identifies its template. -/
def Identity.canonicalName : Identity → Option String
  | .name given => some given
  | .ref given => some given.name
  | .definition given => some given.fullName
  | .named given => some given
  | .runtimeClass module qualifiedName => some (module ++ "." ++ qualifiedName)
  | .other => none

end JobClosure
