import JobClosure.CallSite.Basic
import JobClosure.Cancellation
import JobClosure.Diagnostic
import JobClosure.Index.Interfaces
import JobClosure.Instruction

/-!
# Scanning method bodies

The scan decodes every body and collects the call references and the call sites in it. A body that cannot
be decoded contributes nothing but a diagnostic. Modules are scanned one after the other and their results
are put together in that order. The work may be cancelled before every type.
-/

namespace JobClosure

/-- What a scan finds. -/
structure ScanResult where
  calls : List CallReference := []
  callSites : List CallSite := []
  diagnostics : List Diagnostic := []
  deriving Repr, DecidableEq, Inhabited

namespace ScanResult

def append (a b : ScanResult) : ScanResult :=
  ⟨a.calls ++ b.calls, a.callSites ++ b.callSites, a.diagnostics ++ b.diagnostics⟩

instance : Append ScanResult := ⟨append⟩

/-- The same findings with every call reference once. -/
def dedupeCalls (r : ScanResult) : ScanResult := { r with calls := CallReference.dedupe r.calls }

end ScanResult

/-- What a scan looks things up in, and the attribute that marks jobs. -/
structure Scanner where
  index : Index
  marker : String := Index.defaultMarker
  deriving Repr

/-- What a scan carries along: the interface closures so far, and the cancellation. -/
structure ScanState where
  memo : Index.Memo := []
  cancellation : Cancellation := .never
  deriving Repr, Inhabited

namespace Scanner

/-- The scope of the bodies of a method. -/
def scopeOf (type : TypeDef) (method : Method) : Scope where
  typeName := type.fullName
  typeParams := type.genericParams
  methodId := some method.id.text
  methodParams := method.genericParams

/-- The instructions of a body that refer to methods. -/
def decodeBody (type : TypeDef) (method : Method) (body : List Form) :
    Except InstructionFault (List Instruction) := do
  .ok ((← body.mapM (Instruction.decode (scopeOf type method))).filterMap id)

/-- The open job references among `refs`. -/
def openJobs (s : Scanner) (memo : Index.Memo) : List TypeRef → List TypeRef × Index.Memo
  | [] => ([], memo)
  | ref :: rest =>
    let (isJob, memo) := s.index.isOpenJob s.marker memo ref
    let (jobs, memo) := s.openJobs memo rest
    (if isJob then ref :: jobs else jobs, memo)

/-- The references in an instruction: those in the declaring type, then those in each type argument. -/
def candidates (instruction : Instruction) : List TypeRef :=
  (instruction.declaringType.toArg :: instruction.typeArguments).flatMap TypeArg.nested

def invokedText (instruction : Instruction) : String :=
  instruction.declaringType.spell ++ "::" ++ instruction.method

/-- Bindings of parameters to arguments in order, if there are as many of one as of the other. -/
def bindInOrder (parameters : List Parameter) (args : List TypeArg) : Bindings :=
  if parameters.length = args.length then parameters.zip args else []

/-- The call site that an instruction is, if the method it names is indexed. -/
def callSite? (s : Scanner) (caller : MethodId) (instruction : Instruction) : Option CallSite :=
  match s.index.findMethod (.ref instruction.declaringType) instruction.method instruction.parameters
      (some instruction.typeArguments.length) with
  | .error _ => none
  | .ok callee =>
    let ofType := match s.index.declaringType? callee with
      | some type => bindInOrder (type.genericParams.map type.parameter) instruction.declaringType.args
      | none => []
    let ofMethod := bindInOrder (callee.genericParams.map callee.parameter) instruction.typeArguments
    some ⟨caller, callee.id, ofType ++ ofMethod⟩

/-- What one instruction contributes. -/
def scanInstruction (s : Scanner) (memo : Index.Memo) (entry : MethodId) (instruction : Instruction) :
    ScanResult × Index.Memo :=
  let (jobs, memo) := s.openJobs memo (candidates instruction)
  let calls := jobs.map fun job => CallReference.mk entry job.toArg (invokedText instruction)
  ({ calls, callSites := (s.callSite? entry instruction).toList }, memo)

/-- What a list of instructions contributes. -/
def scanInstructions (s : Scanner) (memo : Index.Memo) (entry : MethodId) :
    List Instruction → ScanResult × Index.Memo
  | [] => ({}, memo)
  | instruction :: rest =>
    let (first, memo) := s.scanInstruction memo entry instruction
    let (more, memo) := s.scanInstructions memo entry rest
    (first ++ more, memo)

/-- The diagnostic of a body that cannot be decoded. -/
def skippedBody (method : Method) (fault : BodyFault) : Diagnostic where
  message := "method body skipped"
  location := some ⟨method.module, some method.id.text⟩
  code := some Diagnostic.skippedBody
  note := some fault.message

/-- Scans one method. Only a parameter position that is no number stops the scan. -/
def scanMethod (s : Scanner) (type : TypeDef) (memo : Index.Memo) (method : Method) :
    Except Error (ScanResult × Index.Memo) :=
  match method.body with
  | none => .ok ({}, memo)
  | some body =>
    match decodeBody type method body with
    | .ok instructions => .ok (s.scanInstructions memo method.id instructions)
    | .error (.body fault) => .ok ({ diagnostics := [skippedBody method fault] }, memo)
    | .error (.position fault) => .error (.number fault)

/-- Scans methods of a type, in order. -/
def scanMethods (s : Scanner) (type : TypeDef) (memo : Index.Memo) :
    List Method → Except Error (ScanResult × Index.Memo)
  | [] => .ok ({}, memo)
  | method :: rest => do
    let (first, memo) ← s.scanMethod type memo method
    let (more, memo) ← s.scanMethods type memo rest
    .ok (first ++ more, memo)

def scanType (s : Scanner) (memo : Index.Memo) (type : TypeDef) : Except Error (ScanResult × Index.Memo) :=
  s.scanMethods type memo type.methods

/-- Scans types in order, unless the work is cancelled before one of them. -/
def scanTypes (s : Scanner) (state : ScanState) : List TypeDef → Except Error ScanResult × ScanState
  | [] => (.ok {}, state)
  | type :: rest =>
    match state.cancellation.ask? with
    | none => (.error .cancelled, state)
    | some cancellation =>
      match s.scanType state.memo type with
      | .error error => (.error error, { state with cancellation })
      | .ok (first, memo) =>
        let (more, state) := s.scanTypes ⟨memo, cancellation⟩ rest
        (more.map (first ++ ·), state)

def scanModule (s : Scanner) (state : ScanState) (m : Module) : Except Error ScanResult × ScanState :=
  let (result, state) := s.scanTypes state (s.index.typesOf m)
  (result.map ScanResult.dedupeCalls, state)

/-- Scans modules in order, keeping every find. -/
def scanEach (s : Scanner) (state : ScanState) : List Module → Except Error ScanResult × ScanState
  | [] => (.ok {}, state)
  | m :: rest =>
    match s.scanModule state m with
    | (.error error, state) => (.error error, state)
    | (.ok first, state) =>
      let (more, state) := s.scanEach state rest
      (more.map (first ++ ·), state)

/-- Scans modules in order. Call references are kept once over all modules. -/
def scanModules (s : Scanner) (state : ScanState) (modules : List Module) :
    Except Error ScanResult × ScanState :=
  let (result, state) := s.scanEach state modules
  (result.map ScanResult.dedupeCalls, state)

end Scanner

end JobClosure
