import JobClosure.Numeral.Fault
import JobClosure.Spelling.Parser

/-!
# Scopes

A scope says which generic parameters are declared where a spelling occurs: those of a type and, inside a
method, those of the method. `Scope.bind` gives every parameter of a parsed spelling its owner. A
parameter is named, or given by its position; a name wins over a position.
-/

namespace JobClosure

/-- The generic parameters that a spelling may use. -/
structure Scope where
  typeName : String := ""
  typeParams : List String := []
  methodId : Option String := none
  methodParams : List String := []
  deriving Repr, DecidableEq, Inhabited

/-- Why a spelling has no meaning in a scope. -/
inductive BindFault
  | refused (refusal : Spelling.Refusal)
  /-- A position that is not a number. -/
  | position (fault : Numeral.Fault)
  deriving DecidableEq, Repr

namespace Scope

/-- Whether a parameter is written as a position. -/
def isPosition (name : String) : Bool := !name.isEmpty && name.toList.all Text.isDigitLike

/-- The declared name that a parameter refers to. -/
def declaredName (p : Parameter) (names : List String) : Except BindFault String :=
  if names.contains p.name then .ok p.name
  else if isPosition p.name then do
    let position ← (Numeral.wholeOfText p.name).mapError .position
    match names[position.toNat]? with
    | some name => .ok name
    | none => .error (.refused (.unknown p))
  else .error (.refused (.unknown p))

/-- A parameter with its owner and its declared name. -/
def bindParameter (scope : Scope) (p : Parameter) : Except BindFault Parameter :=
  if p.ofMethod then
    match scope.methodId with
    | none => .error (.refused (.outsideMethod p))
    | some owner => do .ok ⟨owner, ← declaredName p scope.methodParams, true⟩
  else do .ok ⟨scope.typeName, ← declaredName p scope.typeParams, false⟩

mutual

/-- An argument whose parameters all have their owners. -/
def bind (scope : Scope) : TypeArg → Except BindFault TypeArg
  | .param p => do .ok (.param (← scope.bindParameter p))
  | .named name args => do .ok (.named name (← bindAll scope args))

/-- A list of arguments bound from left to right. -/
def bindAll (scope : Scope) : List TypeArg → Except BindFault (List TypeArg)
  | [] => .ok []
  | arg :: rest => do
    let first ← bind scope arg
    .ok (first :: (← bindAll scope rest))

end

/-- The argument that a text spells in a scope. -/
def parse (scope : Scope) (text : String) : Except BindFault TypeArg := do
  scope.bind (← (Spelling.parse text).mapError .refused)

/-- The type reference that a text spells in a scope. A bare parameter is refused. -/
def parseNamed (scope : Scope) (text : String) : Except BindFault TypeRef := do
  match (← scope.parse text).ref? with
  | some ref => .ok ref
  | none => .error (.refused (.bareParameter text))

end Scope

end JobClosure
