import JobClosure.Form.Basic
import JobClosure.Spelling.Scope

/-!
# Instructions

A method body is a list of instruction forms. Only those that name a method together with the type that
declares it matter: the construction of an object and three kinds of calls. Every other form with a symbol
as its head is some other instruction and has no meaning here; a form without such a head is no
instruction at all.
-/

namespace JobClosure

/-- An instruction that refers to a method. Without `parameters` it does not say which overload. -/
structure Instruction where
  opcode : String
  declaringType : TypeRef
  method : String
  typeArguments : List TypeArg := []
  parameters : Option (List String) := none
  deriving Repr, DecidableEq

/-- The uses of a list of texts in an instruction. -/
inductive TextList
  | constructorSignature
  | typeArguments
  | signature
  deriving DecidableEq, Repr

def TextList.words : TextList → String
  | .constructorSignature => "constructor signature"
  | .typeArguments => "type arguments"
  | .signature => "signature"

/-- Why a body cannot be decoded. -/
inductive BodyFault
  | notAnInstruction (form : Form)
  | constructionOperands (form : Form)
  | callOperands (opcode : String) (form : Form)
  | methodName (opcode : String) (form : Form)
  | notTexts (use : TextList) (form : Form)
  | notASpelling (form : Form)
  | refused (refusal : Spelling.Refusal)
  | bareOwner (text : String)
  deriving Repr

def BodyFault.message : BodyFault → String
  | .notAnInstruction form => s!"Not an instruction: {form.shown}"
  | .constructionOperands form => s!"newobj expects a type and an optional signature: {form.shown}"
  | .callOperands opcode form =>
    s!"{opcode} expects owner, name, type arguments and signature: {form.shown}"
  | .methodName opcode form => s!"{opcode} expects a method name: {form.shown}"
  | .notTexts use form => s!"Expected a list of strings for {use.words}, got {form.shown}"
  | .notASpelling form => s!"Expected a type spelling, got {form.shown}"
  | .refused refusal => refusal.message
  | .bareOwner text => s!"Member owner must be a type, got {Text.quoted text}"

/-- Why an instruction cannot be decoded: a fault of the body, or a parameter position that is no number. -/
inductive InstructionFault
  | body (fault : BodyFault)
  | position (fault : Numeral.Fault)
  deriving Repr

namespace Instruction

def constructionHead : String := "newobj"

def constructorName : String := ".ctor"

def callHeads : List String := ["call", "callvirt", "ldftn"]

/-- Whether an instruction constructs an object. -/
def isConstruction (instruction : Instruction) : Bool := instruction.opcode == constructionHead

/-- A list of quoted texts. -/
def texts (use : TextList) (form : Form) : Except InstructionFault (List String) :=
  match form with
  | .list items =>
    match items.mapM (·.text?) with
    | some contents => .ok contents
    | none => .error (.body (.notTexts use form))
  | _ => .error (.body (.notTexts use form))

/-- The optional list of texts at the end of an instruction. -/
def textsIfAny (use : TextList) : Option Form → Except InstructionFault (Option (List String))
  | none => .ok none
  | some form => do .ok (some (← texts use form))

/-- The type argument that a text spells. -/
def spelled (scope : Scope) (text : String) : Except InstructionFault TypeArg :=
  (scope.parse text).mapError fun
    | .refused refusal => .body (.refused refusal)
    | .position fault => .position fault

/-- The type that declares the method. -/
def owner (scope : Scope) (form : Form) : Except InstructionFault TypeRef := do
  match form.text? with
  | none => .error (.body (.notASpelling form))
  | some text =>
    match (← spelled scope text).ref? with
    | some ref => .ok ref
    | none => .error (.body (.bareOwner text))

def decodeConstruction (scope : Scope) (form : Form) : List Form → Except InstructionFault Instruction
  | [type] => construct type none
  | [type, signature] => construct type (some signature)
  | _ => .error (.body (.constructionOperands form))
where
  /-- Reads the signature before the type. -/
  construct (type : Form) (signature : Option Form) : Except InstructionFault Instruction := do
    let parameters ← textsIfAny .constructorSignature signature
    .ok ⟨constructionHead, ← owner scope type, constructorName, [], parameters⟩

def decodeCall (scope : Scope) (opcode : String) (form : Form) : List Form → Except InstructionFault Instruction
  | [type, name] => call type name none none
  | [type, name, arguments] => call type name (some arguments) none
  | [type, name, arguments, signature] => call type name (some arguments) (some signature)
  | _ => .error (.body (.callOperands opcode form))
where
  /-- Reads the name, the type arguments, the signature and the type, in this order. -/
  call (type name : Form) (arguments signature : Option Form) : Except InstructionFault Instruction := do
    match name.text? with
    | none => .error (.body (.methodName opcode form))
    | some method =>
      let spellings ← textsIfAny .typeArguments arguments
      let typeArguments ← (spellings.getD []).mapM (spelled scope)
      let parameters ← textsIfAny .signature signature
      .ok ⟨opcode, ← owner scope type, method, typeArguments, parameters⟩

/-- Decodes one form of a body: nothing for an instruction that refers to no method. -/
def decode (scope : Scope) (form : Form) : Except InstructionFault (Option Instruction) :=
  match form with
  | .list (.symbol opcode :: operands) =>
    if opcode == constructionHead then some <$> decodeConstruction scope form operands
    else if callHeads.contains opcode then some <$> decodeCall scope opcode form operands
    else .ok none
  | _ => .error (.body (.notAnInstruction form))

end Instruction

end JobClosure
