import JobClosure.Distinct

/-!
# Type references

A type reference names a type and gives it arguments. An argument is again a type reference or a generic
parameter that is still open. A parameter belongs to an owner, a method or a type, so parameters of one
name with different owners are different parameters.

The module defines spellings, the parameters that occur in an argument and the references nested in it.
Everything is by recursion on the argument, together with a companion for lists of arguments.
-/

namespace JobClosure

/-- A generic parameter: the name of the method or type that declares it, its own name, and which of the
two the owner is. -/
structure Parameter where
  owner : String := ""
  name : String
  ofMethod : Bool := false
  deriving DecidableEq, Repr, Inhabited

/-- The spelling of a parameter: two marks for a method's, one for a type's. -/
def Parameter.spell (p : Parameter) : String := (if p.ofMethod then "!!" else "!") ++ p.name

/-- What a type can be instantiated with. -/
inductive TypeArg
  | param (parameter : Parameter)
  | named (name : String) (args : List TypeArg)
  deriving Repr, Inhabited

/-- A reference to a type: its name and its arguments. -/
structure TypeRef where
  name : String
  args : List TypeArg := []
  deriving Repr, Inhabited

namespace TypeArg

mutual

def decEq : (a b : TypeArg) → Decidable (a = b)
  | .param p, .param q =>
    if h : p = q then isTrue (by rw [h]) else isFalse (fun e => h (TypeArg.param.inj e))
  | .named n as, .named m bs =>
    if h : n = m then
      match decEqAll as bs with
      | isTrue h' => isTrue (by rw [h, h'])
      | isFalse h' => isFalse (fun e => h' (TypeArg.named.inj e).2)
    else isFalse (fun e => h (TypeArg.named.inj e).1)
  | .param _, .named _ _ => isFalse nofun
  | .named _ _, .param _ => isFalse nofun

def decEqAll : (as bs : List TypeArg) → Decidable (as = bs)
  | [], [] => isTrue rfl
  | a :: as, b :: bs =>
    match decEq a b, decEqAll as bs with
    | isTrue h, isTrue h' => isTrue (by rw [h, h'])
    | isFalse h, _ => isFalse (fun e => h (List.cons.inj e).1)
    | _, isFalse h' => isFalse (fun e => h' (List.cons.inj e).2)
  | [], _ :: _ => isFalse nofun
  | _ :: _, [] => isFalse nofun

end

instance : DecidableEq TypeArg := decEq

mutual

/-- The spelling of an argument: the name, followed by the arguments between angle brackets if there are
any. -/
def spell : TypeArg → String
  | .param p => p.spell
  | .named name [] => name
  | .named name (arg :: rest) => name ++ "<" ++ ", ".intercalate (spell arg :: spellAll rest) ++ ">"

def spellAll : List TypeArg → List String
  | [] => []
  | arg :: rest => spell arg :: spellAll rest

end

mutual

/-- Whether a parameter occurs in an argument. -/
def isOpen : TypeArg → Bool
  | .param _ => true
  | .named _ args => isOpenAny args

/-- Whether a parameter occurs in some argument of a list. -/
def isOpenAny : List TypeArg → Bool
  | [] => false
  | arg :: rest => isOpen arg || isOpenAny rest

end

mutual

/-- Every occurrence of a parameter, from left to right. -/
def occurrences : TypeArg → List Parameter
  | .param p => [p]
  | .named _ args => occurrencesAll args

/-- Every occurrence of a parameter in a list of arguments, from left to right. -/
def occurrencesAll : List TypeArg → List Parameter
  | [] => []
  | arg :: rest => occurrences arg ++ occurrencesAll rest

end

/-- The parameters of an argument in the order of their first occurrence, each once. -/
def openParameters (arg : TypeArg) : List Parameter := distinctBy id arg.occurrences

mutual

/-- The type references nested in an argument, outermost first. A parameter is none. -/
def nested : TypeArg → List TypeRef
  | .param _ => []
  | .named name args => ⟨name, args⟩ :: nestedAll args

/-- The type references nested in a list of arguments. -/
def nestedAll : List TypeArg → List TypeRef
  | [] => []
  | arg :: rest => nested arg ++ nestedAll rest

end

/-- The type reference that an argument is, unless it is a parameter. -/
def ref? : TypeArg → Option TypeRef
  | .param _ => none
  | .named name args => some ⟨name, args⟩

/-- The type reference that an argument without parameters is. -/
def closed? (arg : TypeArg) : Option TypeRef := if arg.isOpen then none else arg.ref?

/-- Open arguments are those in which a parameter occurs; all others are type references. -/
@[simp] theorem closed?_eq_none_iff {arg : TypeArg} : arg.closed? = none ↔ arg.isOpen = true := by
  unfold closed?
  split
  · simp_all
  · cases arg <;> simp_all [ref?, isOpen]

end TypeArg

namespace TypeRef

/-- A type reference as an argument. -/
def toArg (ref : TypeRef) : TypeArg := .named ref.name ref.args

instance : Coe TypeRef TypeArg := ⟨toArg⟩

theorem toArg_injective {a b : TypeRef} (h : a.toArg = b.toArg) : a = b := by
  cases a; cases b; simpa [toArg] using h

instance : DecidableEq TypeRef := fun a b =>
  if h : a.toArg = b.toArg then isTrue (toArg_injective h) else isFalse (fun e => h (by rw [e]))

def spell (ref : TypeRef) : String := ref.toArg.spell

/-- Whether a parameter occurs in a type reference. -/
def isOpen (ref : TypeRef) : Bool := ref.toArg.isOpen

/-- The parameters of a type reference in the order of their first occurrence, each once. -/
def openParameters (ref : TypeRef) : List Parameter := ref.toArg.openParameters

end TypeRef

end JobClosure
