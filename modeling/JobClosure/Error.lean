import JobClosure.FileTree.Basic
import JobClosure.Form.Token
import JobClosure.Instruction
import JobClosure.Metadata.Clause
import JobClosure.Location
import JobClosure.Value

/-!
# Errors

Everything that can stop an operation, each cause with what it knows. An error has a message and perhaps a
location; an error that was met while a document was loaded keeps its cause.
-/

namespace JobClosure

/-- Why a method is not found. -/
inductive LookupFault
  | unknownType (name : Option String)
  | unknownMethod (type name : String)
  | unknownOverload (type name : String) (parameters : List String)
  deriving DecidableEq, Repr

def LookupFault.message : LookupFault → String
  | .unknownType name =>
    let shown := name.getD "None"
    s!"Type {shown} is not in any loaded module"
  | .unknownMethod type name => s!"{type} has no method {name}"
  | .unknownOverload type name parameters =>
    type ++ " has no overload " ++ name ++ "(" ++ ", ".intercalate parameters ++ ")"

/-- Why a group of closed types cannot be synthesised. -/
inductive SynthesisFault
  | noName
  | notAType (shown : String)
  | notClosed (ref : TypeRef)
  | unknownTemplate (name : String)
  | wrongArity (ref : TypeRef) (expected : Nat)
  deriving Repr

def SynthesisFault.message : SynthesisFault → String
  | .noName => "Synthesized type group needs a name"
  | .notAType shown => s!"Cannot synthesize a type for {shown}"
  | .notClosed ref => s!"Instantiation {ref.spell} is not closed"
  | .unknownTemplate name => s!"Unknown generic template {name}"
  | .wrongArity ref expected =>
    s!"{ref.spell} has {ref.args.length} arguments, {ref.name} expects {expected}"

/-- What can stop an operation. -/
inductive Error
  | reading (fault : Form.ReadFault)
  | value (fault : ValueFault)
  | number (fault : Numeral.Fault)
  | spelling (refusal : Spelling.Refusal)
  /-- A list or a record where a spelling is wanted. -/
  | compoundSpelling (kind : String)
  | body (fault : BodyFault)
  | clause (fault : ClauseFault)
  | encoding (fault : Text.EncodingFault)
  | storage (fault : StorageFault)
  | notAModule (path : Option Path)
  | unknownModuleClause (clause : Form) (path : Option Path)
  | typeReference (typeName : String) (refusal : Spelling.Refusal)
  | cannotOpen (path : Path) (fault : StorageFault)
  | cannotParse (path : Path) (cause : Error)
  | cannotParseSymbols (path : Path) (cause : Error)
  | nothingLoaded (selected : Nat)
  | notFound (fault : LookupFault)
  | synthesis (module : String) (fault : SynthesisFault)
  | noPath (module : String)
  | cannotWrite (module : String) (path : Option Path) (cause : Error)
  | cancelled
  | storeClosed
  deriving Repr

def Form.ReadFault.message : Form.ReadFault → String
  | .notOneForm => ""
  | .openText => "'NoneType' object has no attribute 'start'"
  | .danglingEscape => "string index out of range"
  | .unclosed expected got =>
    let shown := match got with
      | some c => Text.quoted (String.singleton c)
      | none => "None"
    s!"Not enough closing brackets. Expected {Text.quoted (String.singleton expected)} "
      ++ s!"to be the last letter in the sexp. Got: {shown}"
  | .surplus rest =>
    "Too many closing brackets. Expected no character left in the sexp. Got: "
      ++ Text.quoted (String.ofList rest)
  | .nothingQuoted position => s!"No s-exp is found after an apostrophe at position {position}"

def ValueFault.message : ValueFault → String
  | .truthValue => "booleans are not part of the module format"
  | .notAForm shown => s!"cannot serialize {shown}"

def Text.EncodingFault.Reason.words : Text.EncodingFault.Reason → String
  | .invalidStart => "invalid start byte"
  | .invalidContinuation => "invalid continuation byte"
  | .unexpectedEnd => "unexpected end of data"

def Text.EncodingFault.message (fault : Text.EncodingFault) : String :=
  let place :=
    if fault.length == 1 then
      s!"byte 0x{String.ofList (Text.hex 2 fault.first.toNat)} in position {fault.position}"
    else s!"bytes in position {fault.position}-{fault.position + fault.length - 1}"
  s!"'utf-8' codec can't decode {place}: {fault.reason.words}"

namespace Error

/-- Where an error occurred, for those that say. -/
def location? : Error → Option Location
  | .notAModule path | .unknownModuleClause _ path | .cannotWrite _ path _ => path.map .path
  | .cannotOpen path _ | .cannotParse path _ | .cannotParseSymbols path _ => some (.path path)
  | .synthesis module _ => some (.words module)
  | _ => none

/-- The message of an error, without its location. -/
def message : Error → String
  | .reading fault => fault.message
  | .value fault => fault.message
  | .number fault => fault.message
  | .spelling refusal => refusal.message
  | .compoundSpelling kind => s!"unhashable type: '{kind}'"
  | .body fault => fault.message
  | .clause fault => fault.message
  | .encoding fault => fault.message
  | .storage fault => fault.message
  | .notAModule _ => "Not a module document: expected (module \"Name\" ...)"
  | .unknownModuleClause form _ => s!"Unknown module clause {form.shown}"
  | .typeReference typeName refusal => s!"Invalid type reference in {typeName}: {refusal.message}"
  | .cannotOpen path fault => s!"Cannot open module {path.text}: {fault.message}"
  | .cannotParse path cause =>
    s!"Cannot parse module {path.text}: {Location.append cause.message cause.location?}"
  | .cannotParseSymbols path cause =>
    s!"Cannot parse symbols {path.text}: {Location.append cause.message cause.location?}"
  | .nothingLoaded selected => s!"None of the {selected} selected modules could be loaded"
  | .notFound fault => fault.message
  | .synthesis _ fault => fault.message
  | .noPath module => s!"Module {module} has no path to write to"
  | .cannotWrite module _ cause =>
    s!"Cannot write module {module}: {Location.append cause.message cause.location?}"
  | .cancelled => "resolution request was cancelled"
  | .storeClosed => "Module store is closed"

/-- The message of an error, with its location if it has one. -/
def text (error : Error) : String := Location.append error.message error.location?

/-- Whether a module document or its symbols could not be loaded. -/
def isLoad : Error → Bool
  | .notAModule _ | .unknownModuleClause _ _ | .typeReference _ _ | .cannotOpen _ _
  | .cannotParse _ _ | .cannotParseSymbols _ _ | .nothingLoaded _ => true
  | _ => false

/-- The error of a spelling that has no meaning in its scope. -/
def ofBind : BindFault → Error
  | .refused refusal => .spelling refusal
  | .position fault => .number fault

/-- The error of a body that cannot be decoded. -/
def ofInstruction : InstructionFault → Error
  | .body fault => .body fault
  | .position fault => .number fault

/-- The error of a value that spells no type argument. -/
def ofSpelledValue : Spelling.ValueFault → Error
  | .refused refusal => .spelling refusal
  | .compound kind => .compoundSpelling kind

end Error

end JobClosure
