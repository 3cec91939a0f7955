import JobClosure.Distinct
import JobClosure.Index.Basic
import JobClosure.TypeRef.Mangling
import JobClosure.Value

/-!
# Synthesis of closed types

A group of closed types makes every instantiation visible in a module: one alias per instantiation, whose
base is the instantiation, and one type with a field per alias. The group depends only on the set of
instantiations, which are taken in the order of their spellings. An earlier group of the same name is
replaced.
-/

namespace JobClosure

/-- Something that a type may be synthesised for. -/
inductive Instantiation
  | ref (ref : TypeRef)
  /-- A parameter, which is no type. -/
  | parameter (parameter : Parameter)
  /-- Any other value. -/
  | other (value : Value)
  deriving Repr

namespace Synthesis

def shownTruth (b : Bool) : String := (Value.truth b).shown

def shownParameter (p : Parameter) : String :=
  "GenericParam(owner=" ++ Text.quoted p.owner ++ ", name=" ++ Text.quoted p.name ++ ", is_method="
    ++ shownTruth p.ofMethod ++ ")"

/-- Checks a reference against its template, if there is an index to look it up in. -/
def checkTemplate (index : Option Index) (ref : TypeRef) : Except SynthesisFault Unit :=
  match index with
  | none => .ok ()
  | some ix =>
    match ix.type? ref.name with
    | none => .error (.unknownTemplate ref.name)
    | some template =>
      if template.genericParams.length = ref.args.length then .ok ()
      else .error (.wrongArity ref template.genericParams.length)

/-- The closed reference that an instantiation is. -/
def closedRef (index : Option Index) : Instantiation → Except SynthesisFault TypeRef
  | .other value => .error (.notAType value.shown)
  | .parameter p => .error (.notAType (shownParameter p))
  | .ref ref =>
    if ref.isOpen then .error (.notClosed ref)
    else do
      checkTemplate index ref
      .ok ref

/-- The closed references, each spelling once, in ascending order of their spellings. -/
def closedRefs (index : Option Index) (items : List Instantiation) : Except SynthesisFault (List TypeRef) := do
  let refs ← items.mapM (closedRef index)
  .ok ((distinctBy TypeRef.spell refs).mergeSort fun a b => decide (a.spell ≤ b.spell))

/-- The names tried for a member: the base name, then the base name with `_2`, `_3` and so on. -/
def candidateNames (base : String) (count : Nat) : List String :=
  base :: (List.range count).map fun n => s!"{base}_{n + 2}"

/-- The first candidate that is not used yet. One of `used.length + 1` candidates is free. -/
def freshName (used : List String) (base : String) : String :=
  ((candidateNames base used.length).find? fun name => !used.contains name).getD base

/-- The member names of references: their mangled spellings, made different from those before. -/
def memberNames (used : List String) : List TypeRef → List String
  | [] => []
  | ref :: rest =>
    let name := freshName used ref.mangle
    name :: memberNames (used ++ [name]) rest

/-- The full name of the alias called `member` in a group. -/
def aliasName (group member : String) : String := group ++ "/" ++ member

def aliasType (module group : String) (ref : TypeRef) (member : String) : TypeDef where
  fullName := aliasName group member
  base := some ref
  module := module

/-- The field that holds an alias. -/
def aliasField (group member : String) : Field := ⟨"_instance_" ++ member, ⟨aliasName group member, []⟩⟩

/-- The type of a group. -/
def groupType (module group : String) (members : List String) : TypeDef where
  fullName := group
  fields := members.map (aliasField group)
  module := module

/-- Whether a type belongs to the group of a name. -/
def inGroup (group : String) (type : TypeDef) : Bool :=
  type.fullName == group || (group ++ "/").toList.isPrefixOf type.fullName.toList

/-- The group and its aliases. -/
def groupTypes (module group : String) (refs : List TypeRef) : TypeDef × List TypeDef :=
  let members := memberNames [] refs
  (groupType module group members, List.zipWith (aliasType module group) refs members)

end Synthesis

/-- Puts a group of closed types into a module, in place of an earlier one. -/
def Module.synthesize (m : Module) (index : Option Index) (group : String) (items : List Instantiation) :
    Except Error (TypeDef × Module) :=
  if group.isEmpty then .error (.synthesis m.name .noName)
  else
    match Synthesis.closedRefs index items with
    | .error fault => .error (.synthesis m.name fault)
    | .ok refs =>
      let (type, aliases) := Synthesis.groupTypes m.name group refs
      .ok (type, (m.removeTypes (Synthesis.inGroup group)).addTypes (type :: aliases))

end JobClosure
