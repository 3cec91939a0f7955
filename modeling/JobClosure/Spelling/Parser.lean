import JobClosure.Spelling.Token
import JobClosure.Text.Quoted
import JobClosure.TypeRef.Basic
import JobClosure.Value

/-!
# Parsing type spellings

A spelling is a parameter, or a name with an optional list of spellings between angle brackets, separated
by commas. The parser goes through the tokens once and keeps the references whose argument lists are still
open. Parsed parameters have no owner yet: a spelling can occur in different places.
-/

namespace JobClosure.Spelling

/-- Why a spelling is refused. -/
inductive Refusal
  | notText (kind : String)
  | malformed (text : String)
  | outsideMethod (parameter : Parameter)
  | unknown (parameter : Parameter)
  | bareParameter (text : String)
  deriving DecidableEq, Repr

def Refusal.message : Refusal → String
  | .notText kind => s!"Type spelling must be a string, got {kind}"
  | .malformed text => s!"Invalid type spelling {Text.quoted text}: syntax error"
  | .outsideMethod parameter => s!"Method generic parameter {parameter.spell} outside of a method"
  | .unknown parameter => s!"Unknown generic parameter {parameter.spell}"
  | .bareParameter text => s!"Expected a type, got generic parameter {Text.quoted text}"

/-- A reference whose argument list is open: its name and its arguments so far, in reverse. -/
structure OpenRef where
  name : String
  args : List TypeArg
  deriving Repr

/-- What the parser has read last. -/
inductive Phase
  /-- Nothing yet: an argument must follow. -/
  | wanting
  /-- A name, whose arguments may follow. -/
  | named (name : String)
  /-- A whole argument. -/
  | complete (arg : TypeArg)
  deriving Repr

/-- The argument that a phase amounts to if nothing is added to it. -/
def Phase.arg? : Phase → Option TypeArg
  | .wanting => none
  | .named name => some (.named name [])
  | .complete arg => some arg

def advance (outer : List OpenRef) (phase : Phase) (token : Token) : Option (List OpenRef × Phase) :=
  match phase, token with
  | .wanting, .name content => some (outer, .named (String.ofList content))
  | .wanting, .parameter ofMethod word =>
    some (outer, .complete (.param ⟨"", String.ofList word, ofMethod⟩))
  | .named name, .opening => some (⟨name, []⟩ :: outer, .wanting)
  | phase, .comma =>
    match phase.arg?, outer with
    | some arg, ref :: outer => some ({ ref with args := arg :: ref.args } :: outer, .wanting)
    | _, _ => none
  | phase, .closing =>
    match phase.arg?, outer with
    | some arg, ref :: outer => some (outer, .complete (.named ref.name (arg :: ref.args).reverse))
    | _, _ => none
  | _, _ => none

theorem advance_comma {phase : Phase} {arg : TypeArg} (h : phase.arg? = some arg) (ref : OpenRef)
    (outer : List OpenRef) :
    advance (ref :: outer) phase .comma = some ({ ref with args := arg :: ref.args } :: outer, .wanting) := by
  cases phase with
  | wanting => cases h
  | named name | complete found =>
    obtain rfl := Option.some.inj h
    rfl

theorem advance_closing {phase : Phase} {arg : TypeArg} (h : phase.arg? = some arg) (ref : OpenRef)
    (outer : List OpenRef) :
    advance (ref :: outer) phase .closing
      = some (outer, .complete (.named ref.name (arg :: ref.args).reverse)) := by
  cases phase with
  | wanting => cases h
  | named name | complete found =>
    obtain rfl := Option.some.inj h
    rfl

/-- Reads tokens to the end, where one whole argument must remain. -/
def parseTokens (outer : List OpenRef) (phase : Phase) : List Token → Option TypeArg
  | [] => if outer.isEmpty then phase.arg? else none
  | token :: rest => do
    let (outer, phase) ← advance outer phase token
    parseTokens outer phase rest

theorem parseTokens_cons {outer outer' : List OpenRef} {phase phase' : Phase} {token : Token}
    (h : advance outer phase token = some (outer', phase')) (rest : List Token) :
    parseTokens outer phase (token :: rest) = parseTokens outer' phase' rest := by
  rw [parseTokens, h]
  rfl

/-- The type argument that a text spells, with parameters that have no owner. -/
def parse? (text : String) : Option TypeArg := do
  parseTokens [] .wanting (← tokens? text.toList)

/-- The type argument that a text spells, or its refusal. -/
def parse (text : String) : Except Refusal TypeArg :=
  match parse? text with
  | some arg => .ok arg
  | none => .error (.malformed text)

/-- Why a value is not the spelling of a type argument. -/
inductive ValueFault
  | refused (refusal : Refusal)
  /-- A list or a record, which is not even looked up. -/
  | compound (kind : String)
  deriving DecidableEq, Repr

/-- The type argument that a value spells. -/
def parseValue : Value → Except ValueFault TypeArg
  | .text text => (parse text).mapError .refused
  | .list items => .error (.compound (Value.list items).kindName)
  | .record fields => .error (.compound (Value.record fields).kindName)
  | value => .error (.refused (.notText value.kindName))

end JobClosure.Spelling
