import JobClosure.Synthesis

/-!
# Synthesis as a change of a module

`Module.synthesize` says what becomes of a module. Here the same is done to a module step by step: the name is
checked, the items are looked at one after the other, an earlier group is taken out, and the types of the new
one are put in one by one. An error breaks this off, and the module stays as the steps before have left it.
-/

namespace JobClosure

/-- A change of a module that may be broken off. What was done before the error stays done. -/
abbrev Edit := ExceptT Error (StateM Module)

namespace Edit

variable {α : Type}

/-- What a change comes to, and the module as it is left. -/
def apply (edit : Edit α) (m : Module) : Except Error α × Module := Id.run ((ExceptT.run edit).run m)

/-- Breaks off because of a fault. -/
def refuse (fault : SynthesisFault) : Edit α := do
  let m ← get
  throw (.synthesis m.name fault)

/-- Puts a type into the module. -/
def addType (type : TypeDef) : Edit Unit := modify (·.addTypes [type])

end Edit

namespace Synthesis

/-- What a type is asked for: an instantiation that was resolved, by its entity and its arguments, or anything
else. -/
inductive Wanted
  | resolved (entity : String) (args : List TypeArg)
  | given (instantiation : Instantiation)
  deriving Repr

/-- The instantiation that is asked for. -/
def Wanted.instantiation : Wanted → Instantiation
  | .resolved entity args => .ref ⟨entity, args⟩
  | .given instantiation => instantiation

/-- Takes an item in under its spelling, which the first one keeps. -/
def collect (index : Option Index) (unique : List TypeRef) (item : Wanted) : Edit (List TypeRef) :=
  match closedRef index item.instantiation with
  | .error fault => Edit.refuse fault
  | .ok ref => return addDistinct TypeRef.spell unique ref

/-- Takes a group out and puts in the one that is made for references. -/
def putGroup (group : String) (refs : List TypeRef) : Edit TypeDef := do
  modify (·.removeTypes (inGroup group))
  let m ← get
  let made := groupTypes m.name group refs
  Edit.addType made.1
  forM made.2 Edit.addType
  return made.1

/-- Puts a group of closed types in the place of an earlier one. -/
def replaceGroup (index : Option Index) (group : String) (items : List Wanted) : Edit TypeDef := do
  if group.isEmpty then
    Edit.refuse .noName
  let unique ← items.foldlM (collect index) []
  putGroup group (unique.mergeSort fun a b => decide (a.spell ≤ b.spell))

end Synthesis

end JobClosure
