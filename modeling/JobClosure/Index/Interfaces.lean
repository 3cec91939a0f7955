import JobClosure.Index.Basic

/-!
# Interfaces of a type

A type implements the interfaces that it names, those that its base types implement, and those that its
interfaces extend. Only interfaces with a definition in the index count. The search goes breadth first and
expands every name once, so it ends on cyclic hierarchies too.

Answers are remembered by the name of the type that was asked about. A `Memo` is threaded through the
queries that use it.
-/

namespace JobClosure

namespace Index

/-- The interfaces that a definition names, where they are defined. -/
def namedInterfaces (ix : Index) (type : TypeDef) : List TypeDef :=
  type.interfaces.filterMap fun ref => ix.type? ref.name

/-- The base type of a definition, where it is defined. -/
def baseType? (ix : Index) (type : TypeDef) : Option TypeDef := type.base.bind fun ref => ix.type? ref.name

/-- Works through the pending definitions in order. `remaining` holds the names that have not been
expanded yet, `found` the interfaces so far. -/
def closeInterfaces (ix : Index) (remaining : List String) (found : List TypeDef) :
    (pending : List TypeDef) → List TypeDef
  | [] => found
  | type :: pending =>
    if _h : type.fullName ∈ remaining then
      let interfaces := ix.namedInterfaces type
      ix.closeInterfaces (remaining.erase type.fullName) (interfaces.foldl (addDistinct (·.fullName)) found)
        (pending ++ interfaces ++ (ix.baseType? type).toList)
    else ix.closeInterfaces remaining found pending
termination_by pending => (remaining.length, pending.length)
decreasing_by
  · have shorter := List.length_erase_of_mem _h
    have positive := List.length_pos_of_mem _h
    exact Prod.Lex.left _ _ (by omega)
  · exact Prod.Lex.right _ (by simp)

/-- All interfaces that a type implements, in the order of the search. -/
def interfaceClosure (ix : Index) (type : TypeDef) : List TypeDef :=
  ix.closeInterfaces ((ix.types.map (·.fullName)).insert type.fullName) [] [type]

/-- Interface closures that have been computed, by the names of the types. -/
abbrev Memo := List (String × List TypeDef)

/-- The interfaces of a type: the remembered answer for its name, or a new one, which is then
remembered. -/
def interfacesOf (ix : Index) (memo : Memo) (type : TypeDef) : List TypeDef × Memo :=
  match memo.lookup type.fullName with
  | some known => (known, memo)
  | none =>
    let found := ix.interfaceClosure type
    (found, memo ++ [(type.fullName, found)])

/-- Whether some interface of a type carries the marker attribute. -/
def hasCapability (ix : Index) (marker : String) (memo : Memo) (type : TypeDef) : Bool × Memo :=
  let (interfaces, memo) := ix.interfacesOf memo type
  (interfaces.any (·.attributes.contains marker), memo)

/-- Whether a type is a job implementation: not an interface itself, and one of its interfaces carries
the marker. -/
def isJob (ix : Index) (marker : String) (memo : Memo) (type : TypeDef) : Bool × Memo :=
  if type.isInterface then (false, memo) else ix.hasCapability marker memo type

/-- Whether a reference calls for a job that is not closed: its type is a job implementation and a
parameter occurs in it. -/
def isOpenJob (ix : Index) (marker : String) (memo : Memo) (ref : TypeRef) : Bool × Memo :=
  if ref.isOpen then
    match ix.type? ref.name with
    | some type => ix.isJob marker memo type
    | none => (false, memo)
  else (false, memo)

/-- The attribute that marks the interfaces of jobs unless another one is asked for. -/
def defaultMarker : String := "Unity.Jobs.LowLevel.Unsafe.JobProducerTypeAttribute"

end Index

end JobClosure
