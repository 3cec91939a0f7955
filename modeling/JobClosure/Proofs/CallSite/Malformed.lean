import JobClosure.Proofs.CallSite.Types
import JobClosure.Proofs.CallSite.Workshop
import JobClosure.Proofs.Index.Bodies
import JobClosure.Proofs.Metadata.Read
import JobClosure.Proofs.Metadata.RoundTrip
import JobClosure.Proofs.Spelling.Positions
import JobClosure.Proofs.Spelling.RoundTrip

/-!
# Malformed bodies

A body that cannot be decoded is to affect only itself: the scan goes on, and what it finds is what it would find if
the body were not there, with one diagnostic for it. That is said of every method (`Scanner.mars_findsInMethod`) as a
relation between two scans, of the modules as they are and of the modules without such bodies, and it passes from
parts to wholes (`Mars.append`), so from methods to types, modules and lists of modules.

One fault is not contained. A parameter may be given by its position, and a position with more digits than a whole
number may have is no fault of the body: it stops the scan. The modules are scanned in this way exactly if no body has
such a position (`survey_malformed`).
-/

namespace JobClosure

open Index (Alike Memo)

/-- The body of a method, if it has one that can be decoded. -/
def Method.decodableBody (type : TypeDef) (method : Method) : Option (List Form) :=
  method.body.filter fun body => (Scanner.decodeBody type method body).toOption.isSome

/-- Why the body of a method cannot be decoded, if it has one that cannot. -/
def Method.fault? (type : TypeDef) (method : Method) : Option InstructionFault :=
  match method.body with
  | none => none
  | some body =>
    match Scanner.decodeBody type method body with
    | .ok _ => none
    | .error fault => some fault

/-- The module without the bodies that cannot be decoded. -/
def Module.decodable (m : Module) : Module := m.rebody Method.decodableBody

/-! ## Scans over indexes with other bodies -/

section

variable {body : TypeDef → Method → Option (List Form)} {ix ix' : Index} {memo memo' : Memo}

/-- Whether a reference calls for an open job does not depend on bodies. -/
theorem Index.Rebodied.isOpenJob (h : ix.Rebodied body ix') (hmemo : memo.Sound ix) (hmemo' : memo'.Sound ix')
    (marker : String) (ref : TypeRef) :
    Alike ix ix' (ix.isOpenJob marker memo ref) (ix'.isOpenJob marker memo' ref) := by
  unfold Index.isOpenJob
  rw [h.type?]
  split
  · cases htype : ix.type? ref.name with
    | none => exact ⟨rfl, hmemo, hmemo'⟩
    | some type =>
      have hfound : ix.type? type.fullName = some type := by rw [Index.fullName_of_type? htype, htype]
      have hfound' : ix'.type? (type.rebody body).fullName = some (type.rebody body) := by
        rw [h.type?]
        exact congrArg (Option.map (TypeDef.rebody body)) hfound
      obtain ⟨hanswer, hnext⟩ := Index.sound_interfacesOf hfound hmemo
      obtain ⟨hanswer', hnext'⟩ := Index.sound_interfacesOf hfound' hmemo'
      show Alike ix ix' (ix.isJob marker memo type) (ix'.isJob marker memo' (type.rebody body))
      have hsame : (type.rebody body).isInterface = type.isInterface := rfl
      rw [Index.isJob, Index.isJob, hsame]
      split
      · exact ⟨rfl, hmemo, hmemo'⟩
      · refine ⟨?_, hnext, hnext'⟩
        show ((ix.interfacesOf memo type).1.any _) = ((ix'.interfacesOf memo' (type.rebody body)).1.any _)
        rw [hanswer, hanswer', h.interfaceClosure, List.any_map]
        rfl
  · exact ⟨rfl, hmemo, hmemo'⟩

theorem Index.Rebodied.callSite? (h : ix.Rebodied body ix') (marker : String) (caller : MethodId)
    (instruction : Instruction) :
    (⟨ix, marker⟩ : Scanner).callSite? caller instruction = (⟨ix', marker⟩ : Scanner).callSite? caller instruction := by
  rw [Scanner.callSite?, Scanner.callSite?]
  rcases h.findMethod (.ref instruction.declaringType) instruction.method instruction.parameters
    (some instruction.typeArguments.length) with ⟨fault, hfault, hfault'⟩ | ⟨callee, other, hcallee, hcallee'⟩
  · dsimp only
    rw [hfault, hfault']
  · dsimp only
    rw [hcallee, hcallee']
    have hdeclaring : ix'.declaringType? (callee.withBody other)
        = (ix.declaringType? callee).map (TypeDef.rebody body) := h.type? callee.id.declaringType
    dsimp only
    rw [hdeclaring]
    cases ix.declaringType? callee <;> rfl

theorem Index.Rebodied.asksAlike (h : ix.Rebodied body ix') (marker : String) :
    Scanner.AsksAlike anyName ⟨ix, marker⟩ ⟨ix', marker⟩ where
  isOpenJob hmemo hmemo' _ := h.isOpenJob hmemo hmemo' marker _
  callSite? caller _ _ := h.callSite? marker caller _

end

namespace Scanner

variable {s s' : Scanner} {memo : Memo}

/-! ## What a scan is without the bodies that cannot be decoded -/

/-- What a method with a body that cannot be decoded adds to a scan. -/
def skips (entry : TypeDef × Method) : Except Error (List Diagnostic) :=
  match entry.2.fault? entry.1 with
  | none => .ok []
  | some (.body fault) => .ok [skippedBody entry.2 fault]
  | some (.position fault) => .error (.number fault)

/-- What is found is what is found `clean`, with what some methods add: their diagnostics, or the error of the first
one that stops the scan. -/
def Mars (entries : List (TypeDef × Method)) (found clean : Except Error ScanResult) : Prop :=
  ∃ kept : ScanResult, clean = .ok kept ∧ kept.diagnostics = [] ∧
    found = (fun skipped => { kept with diagnostics := skipped.flatten }) <$> entries.mapM skips

namespace Mars

variable {entries more : List (TypeDef × Method)} {found clean found' clean' : Except Error ScanResult}

theorem nil : Mars [] (.ok {}) (.ok {}) := ⟨{}, rfl, rfl, rfl⟩

/-- **Two parts.** -/
theorem append (h : Mars entries found clean) (h' : Mars more found' clean') :
    Mars (entries ++ more) (found >>= fun a => found' >>= fun b => .ok (a ++ b))
      (clean >>= fun a => clean' >>= fun b => .ok (a ++ b)) := by
  obtain ⟨kept, rfl, hnone, rfl⟩ := h
  obtain ⟨kept', rfl, hnone', rfl⟩ := h'
  refine ⟨kept ++ kept', rfl, ?_, ?_⟩
  · show kept.diagnostics ++ kept'.diagnostics = []
    rw [hnone, hnone', List.append_nil]
  · rw [List.mapM_append]
    cases entries.mapM skips with
    | error error => rfl
    | ok skipped =>
      cases more.mapM skips with
      | error error => rfl
      | ok skipped' =>
        show Except.ok (ScanResult.mk (kept.calls ++ kept'.calls) (kept.callSites ++ kept'.callSites)
          (skipped.flatten ++ skipped'.flatten)) = Except.ok ⟨_, _, (skipped ++ skipped').flatten⟩
        rw [List.flatten_append]
        rfl

/-- Dropping call references that are found twice. -/
theorem dedupeCalls (h : Mars entries found clean) :
    Mars entries (found.map ScanResult.dedupeCalls) (clean.map ScanResult.dedupeCalls) := by
  obtain ⟨kept, rfl, hnone, rfl⟩ := h
  refine ⟨kept.dedupeCalls, rfl, hnone, ?_⟩
  cases entries.mapM skips <;> rfl

end Mars

theorem together_mapM_cons {α : Type} (f : α → Except Error ScanResult) (x : α) (xs : List α) :
    together <$> (x :: xs).mapM f = f x >>= fun a => (together <$> xs.mapM f) >>= fun b => .ok (a ++ b) := by
  rw [List.mapM_cons]
  cases f x with
  | error error => rfl
  | ok first => cases xs.mapM f <;> rfl

/-- **A list of parts.** -/
theorem mars_mapM {α : Type} {f f' : α → Except Error ScanResult} {entriesOf : α → List (TypeDef × Method)}
    {xs : List α} (h : ∀ x ∈ xs, Mars (entriesOf x) (f x) (f' x)) :
    Mars (xs.flatMap entriesOf) (together <$> xs.mapM f) (together <$> xs.mapM f') := by
  induction xs with
  | nil => exact Mars.nil
  | cons x xs ih =>
    obtain ⟨hfirst, hrest⟩ := List.forall_mem_cons.mp h
    rw [together_mapM_cons, together_mapM_cons, List.flatMap_cons]
    exact hfirst.append (ih hrest)

/-! ## Methods, types and modules -/

/-- What a method contributes when it is scanned alone. -/
def findsInMethod (s : Scanner) (type : TypeDef) (method : Method) : Except Error ScanResult :=
  (s.scanMethod type [] method).map Prod.fst

/-- Every method contributes what it contributes alone. -/
theorem scanMethods_eq (hmemo : memo.Sound s.index) (type : TypeDef) (methods : List Method) :
    (s.scanMethods type memo methods).map Prod.fst = together <$> methods.mapM (s.findsInMethod type) := by
  induction methods generalizing memo with
  | nil => rfl
  | cons method rest ih =>
    have hfirst := (Agrees.refl s).scanMethod hmemo (Memo.sound_nil _) (namesInBody_anyName type method)
    rw [together_mapM_cons, findsInMethod, scanMethods]
    generalize s.scanMethod type memo method = first at hfirst ⊢
    generalize s.scanMethod type [] method = alone at hfirst ⊢
    cases hfirst with
    | failed error => rfl
    | @found x y hfirst =>
      show Except.map Prod.fst (s.scanMethods type x.2 rest >>= fun more => Except.ok (x.1 ++ more.1, more.2)) = _
      rw [← ih hfirst.left, hfirst.answer]
      cases s.scanMethods type x.2 rest <;> rfl

theorem diagnostics_scanInstructions (s : Scanner) (memo : Memo) (entry : MethodId) (instructions : List Instruction) :
    (s.scanInstructions memo entry instructions).1.diagnostics = [] := by
  induction instructions generalizing memo with
  | nil => rfl
  | cons first rest ih => exact ih _

/-- **A method** whose body cannot be decoded adds what it adds, and nothing from before the fault. -/
theorem mars_findsInMethod (h : AsksAlike anyName s s') (type : TypeDef) (method : Method) :
    Mars [(type, method)] (s.findsInMethod type method)
      (s'.findsInMethod (type.rebody Method.decodableBody) (method.withBody (method.decodableBody type))) := by
  cases hbody : method.body with
  | none =>
    have hfault : method.fault? type = none := by rw [Method.fault?, hbody]
    have hkept : method.decodableBody type = none := by rw [Method.decodableBody, hbody]; rfl
    refine ⟨{}, ?_, rfl, ?_⟩
    · rw [hkept]
      rfl
    · rw [findsInMethod, scanMethod, hbody, List.mapM_cons, skips, hfault]
      rfl
  | some body =>
    have hscope : ∀ other, decodeBody (type.rebody Method.decodableBody) (method.withBody other) body
        = decodeBody type method body := fun _ => rfl
    -- decoding reads the scope of the type and the method, not the bodies that are taken away
    cases hdecode : decodeBody type method body with
    | ok instructions =>
      -- the body is kept, and the two scanners ask their indexes the same questions
      have hfault : method.fault? type = none := by
        rw [Method.fault?, hbody]
        dsimp only
        rw [hdecode]
      have hkept : method.decodableBody type = some body := by
        rw [Method.decodableBody, hbody, Option.filter_some, hdecode]
        rfl
      have halike := h.scanInstructions (Memo.sound_nil _) (Memo.sound_nil _) method.id
        fun instruction (_ : instruction ∈ instructions) _ _ => trivial
      refine ⟨(s.scanInstructions [] method.id instructions).1, ?_, diagnostics_scanInstructions _ _ _ _, ?_⟩
      · rw [findsInMethod, scanMethod, hkept]
        have hbody' : (method.withBody (some body)).body = some body := rfl
        rw [hbody']
        dsimp only
        rw [hscope, hdecode]
        exact congrArg Except.ok halike.answer.symm
      · rw [findsInMethod, scanMethod, hbody, List.mapM_cons, skips, hfault]
        dsimp only
        rw [hdecode]
        exact congrArg Except.ok (ScanResult.eq_iff.mpr ⟨rfl, rfl, diagnostics_scanInstructions _ _ _ _⟩)
    | error fault =>
      -- the body is taken away on one side and refused on the other
      have hfault : method.fault? type = some fault := by
        rw [Method.fault?, hbody]
        dsimp only
        rw [hdecode]
      have hkept : method.decodableBody type = none := by
        rw [Method.decodableBody, hbody, Option.filter_some, hdecode]
        rfl
      refine ⟨{}, ?_, rfl, ?_⟩
      · rw [hkept]
        rfl
      · rw [findsInMethod, scanMethod, hbody, List.mapM_cons, skips, hfault]
        dsimp only
        rw [hdecode]
        cases fault <;> rfl

/-- The methods of a type, each with the type. -/
def methodsOf (type : TypeDef) : List (TypeDef × Method) := type.methods.map fun method => (type, method)

/-- **A type.** -/
theorem mars_findsIn (h : AsksAlike anyName s s') (type : TypeDef) :
    Mars (methodsOf type) (s.findsIn type) (s'.findsIn (type.rebody Method.decodableBody)) := by
  have hmethods : methodsOf type = type.methods.flatMap fun method => [(type, method)] :=
    List.map_eq_flatMap
  have hclean : (type.rebody Method.decodableBody).methods.mapM (s'.findsInMethod (type.rebody Method.decodableBody))
      = type.methods.mapM fun method =>
          s'.findsInMethod (type.rebody Method.decodableBody) (method.withBody (method.decodableBody type)) :=
    List.mapM_map
  rw [findsIn, findsIn, scanType, scanType, scanMethods_eq (Memo.sound_nil _), scanMethods_eq (Memo.sound_nil _), hclean,
    hmethods]
  exact mars_mapM fun method _ => mars_findsInMethod h type method

/-- **A module.** -/
theorem mars_scanModule (h : AsksAlike anyName s s') {m m' : Module}
    (htypes : s'.index.typesOf m' = (s.index.typesOf m).map (TypeDef.rebody Method.decodableBody)) :
    Mars ((s.index.typesOf m).flatMap methodsOf) (s.scanModule {} m).1 (s'.scanModule {} m').1 := by
  rw [scanModule, scanModule]
  show Mars _ ((s.scanTypes {} (s.index.typesOf m)).1.map _) ((s'.scanTypes {} (s'.index.typesOf m')).1.map _)
  rw [scanTypes_eq (ScanState.ready_start _), scanTypes_eq (ScanState.ready_start _), htypes]
  rw [List.mapM_map]
  exact (mars_mapM fun type _ => mars_findsIn h type).dedupeCalls

end Scanner

/-- The methods that the scan of some modules comes to, in its order. -/
def Index.methodsOf (ix : Index) (modules : List Module) : List (TypeDef × Method) :=
  modules.flatMap fun m => (ix.typesOf m).flatMap Scanner.methodsOf

open Scanner (Mars skips skippedBody)

variable {marker : String} {modules : List Module}

/-- **A list of modules** is scanned as it is without the bodies that cannot be decoded, but for what these add. -/
theorem mars_survey (marker : String) (modules : List Module) :
    Mars ((Index.ofModules modules).methodsOf modules) (survey marker modules)
      (survey marker (modules.map Module.decodable)) := by
  have hrebodied := Index.rebodied_ofModules Method.decodableBody modules
  show Mars _ (Except.map ScanResult.dedupeCalls (Scanner.scanEach _ {} _).1)
    (Except.map ScanResult.dedupeCalls (Scanner.scanEach _ {} _).1)
  rw [Scanner.scanEach_eq _ (ScanState.ready_start _), Scanner.scanEach_eq _ (ScanState.ready_start _), List.mapM_map]
  exact (Scanner.mars_mapM fun m _ =>
    Scanner.mars_scanModule (hrebodied.asksAlike marker) (hrebodied.typesOf m)).dedupeCalls

/-! ## When the scan is not stopped -/

/-- The first fault of a body is a position with more digits than a whole number may have. -/
def Method.Overlong (type : TypeDef) (method : Method) : Prop :=
  ∃ digits, Numeral.digitLimit < digits ∧ method.fault? type = some (.position (.tooLong digits))

/-- The diagnostic of a body that cannot be decoded, if the method has such a body. -/
def Scanner.skipped? (entry : TypeDef × Method) : Option Diagnostic :=
  match entry.2.fault? entry.1 with
  | some (.body fault) => some (skippedBody entry.2 fault)
  | _ => none

/-- A position in a body is no fault of the body only if it is too long. -/
theorem Method.overlong_of_fault? {type : TypeDef} {method : Method} {fault : Numeral.Fault}
    (h : method.fault? type = some (.position fault)) : method.Overlong type := by
  have hfault := h
  unfold Method.fault? at hfault
  split at hfault
  · exact nomatch hfault
  · split at hfault
    · exact nomatch hfault
    · rename_i body other hdecode
      obtain rfl := Option.some.inj hfault
      rcases bind_eq_error hdecode with hforms | ⟨_, -, hnone⟩
      · obtain ⟨form, -, hform⟩ := exists_mem_of_mapM_eq_error hforms
        obtain ⟨digits, rfl, hlong⟩ := Instruction.tooLong_of_decode hform
        exact ⟨digits, hlong, h⟩
      · exact nomatch hnone

/-- What methods add: a diagnostic for each body that cannot be decoded, unless one is overlong. -/
theorem Scanner.mapM_skips_cases (entries : List (TypeDef × Method)) :
    ((∀ entry ∈ entries, ¬ entry.2.Overlong entry.1) ∧
      ∃ skipped, entries.mapM skips = .ok skipped ∧ skipped.flatten = entries.filterMap skipped?) ∨
    ((∃ entry ∈ entries, entry.2.Overlong entry.1) ∧
      ∃ digits, Numeral.digitLimit < digits ∧ entries.mapM skips = .error (.number (.tooLong digits))) := by
  induction entries with
  | nil => exact .inl ⟨nofun, [], rfl, rfl⟩
  | cons entry rest ih =>
    rw [List.mapM_cons]
    by_cases hover : entry.2.Overlong entry.1
    · obtain ⟨digits, hlong, hfault⟩ := hover
      refine .inr ⟨⟨entry, List.mem_cons_self, digits, hlong, hfault⟩, digits, hlong, ?_⟩
      rw [skips, hfault]
      rfl
    · -- the method itself does not stop the scan, so the others decide
      have hfirst : skips entry = .ok (skipped? entry).toList := by
        rw [skips, skipped?]
        cases hfault : entry.2.fault? entry.1 with
        | none => rfl
        | some fault =>
          cases fault with
          | body fault => rfl
          | position fault => exact absurd (Method.overlong_of_fault? hfault) hover
      rw [hfirst]
      rcases ih with ⟨hnone, skipped, hskipped, hflatten⟩ | ⟨⟨other, hother, hlong⟩, digits, hdigits, herror⟩
      · refine .inl ⟨List.forall_mem_cons.mpr ⟨hover, hnone⟩, (skipped? entry).toList :: skipped, ?_, ?_⟩
        · rw [hskipped]
          rfl
        · rw [List.flatten_cons, hflatten, List.filterMap_cons]
          cases skipped? entry <;> rfl
      · refine .inr ⟨⟨other, List.mem_cons_of_mem _ hother, hlong⟩, digits, hdigits, ?_⟩
        rw [herror]
        rfl

/--
**A malformed body affects only itself, unless it has an overlong position.**

Without the bodies that cannot be decoded the scan of any modules succeeds and reports nothing. With them it finds the
same call references and call sites, and reports each of them once, in the order of modules, types and methods, if and
only if no body that it comes to is overlong; otherwise it is stopped. A scan comes to the methods of the modules if
these have identities of their own, and what is reported of a module that was read names this module.
-/
theorem survey_malformed (marker : String) (modules : List Module) :
    ∃ clean, survey marker (modules.map Module.decodable) = .ok clean ∧ clean.diagnostics = [] ∧
      ((∃ found, survey marker modules = .ok found ∧ found.calls = clean.calls ∧
          found.callSites = clean.callSites ∧
          found.diagnostics = ((Index.ofModules modules).methodsOf modules).filterMap Scanner.skipped?) ↔
        ∀ entry ∈ (Index.ofModules modules).methodsOf modules, ¬ entry.2.Overlong entry.1) ∧
      (∀ error, survey marker modules = .error error →
        ∃ digits, Numeral.digitLimit < digits ∧ error = .number (.tooLong digits)) ∧
      ((modules.map Module.identity).Nodup →
        (Index.ofModules modules).methodsOf modules = modules.flatMap fun m => m.types.flatMap Scanner.methodsOf) ∧
      ∀ m ∈ modules, m.Loaded → ∀ entry ∈ m.types.flatMap Scanner.methodsOf, entry.2.module = m.name := by
  obtain ⟨clean, hclean, hnone, hfound⟩ := mars_survey marker modules
  have hcases := Scanner.mapM_skips_cases ((Index.ofModules modules).methodsOf modules)
  refine ⟨clean, hclean, hnone, ?_, ?_, ?_, ?_⟩
  · rw [hfound]
    rcases hcases with ⟨hshort, skipped, hskipped, hflatten⟩ | ⟨⟨entry, hentry, hover⟩, digits, -, herror⟩
    · refine iff_of_true ⟨{ clean with diagnostics := skipped.flatten }, ?_, rfl, rfl, hflatten⟩ hshort
      rw [hskipped]
      rfl
    · -- an overlong body stops the scan, so neither side holds
      refine iff_of_false ?_ fun hshort => hshort entry hentry hover
      rintro ⟨found, hok, -⟩
      rw [herror] at hok
      exact nomatch hok
  · intro error h
    rw [hfound] at h
    rcases hcases with ⟨-, skipped, hskipped, -⟩ | ⟨-, digits, hlong, herror⟩
    · rw [hskipped] at h
      exact nomatch h
    · rw [herror] at h
      exact ⟨digits, hlong, (Except.error.inj h).symm⟩
  · intro hdistinct
    exact List.flatMap_congr fun m hm => by rw [Index.typesOf_ofModules hdistinct hm]
  · intro m _ hloaded entry hentry
    obtain ⟨type, htype, hmethod⟩ := List.mem_flatMap.mp hentry
    obtain ⟨method, hmem, rfl⟩ := List.mem_map.mp hmethod
    obtain ⟨clause, hread⟩ := hloaded.exists_read type htype
    exact (TypeDef.ownMethods_of_read hread method hmem).2

/-! ## A body that stops the scan

A method without parameters constructs an object whose type has the method's parameter at a position of zeros as its
argument. -/

namespace Overlong

variable (digits : Nat)

def position : Parameter := ⟨"", String.ofList (List.replicate digits '0'), true⟩

def job : TypeArg := .named "Demo.Job" [.param (position digits)]

def body : List Form := [.list [.symbol "newobj", .text (job digits).spell]]

def maker : Workshop.Worker where
  name := "Run"
  tasks := [.make (job digits).spell]

def run : Method := (maker digits).method "Demo" "Demo.Work"

def work : TypeDef := Workshop.declaring "Demo" "Demo.Work" [maker digits]

def demo : Module where
  name := "Demo"
  types := [work digits]

variable {digits}

theorem toList_position : (position digits).name.toList = List.replicate digits '0' := String.toList_ofList

theorem eq_zero_of_mem {c : Char} (h : c ∈ (position digits).name.toList) : c = '0' := by
  rw [toList_position] at h
  exact List.eq_of_mem_replicate h

theorem isWord_position (h : digits ≠ 0) : Spelling.isWord (position digits).name = true := by
  rw [Spelling.isWord, Bool.and_eq_true, Bool.not_eq_true', List.isEmpty_eq_false_iff, List.all_eq_true]
  refine ⟨?_, fun c hc => by rw [eq_zero_of_mem hc]; rfl⟩
  rw [toList_position]
  exact fun hempty => h (by simpa using hempty)

theorem parse_job (h : digits ≠ 0) : Spelling.parse (job digits).spell = .ok (job digits) := by
  refine Spelling.parse_spell_of_unowned ⟨by decide, isWord_position h, trivial⟩ ?_
  intro p hp
  rw [List.mem_singleton.mp (hp : p ∈ [position digits])]
  rfl

theorem declaredName_position (h : Numeral.digitLimit < digits) :
    Scope.declaredName (position digits) [] = .error (.position (.tooLong digits)) := by
  have hdigits : ∀ c ∈ (position digits).name.toList, c.isDigit = true := fun c hc => by rw [eq_zero_of_mem hc]; rfl
  have hlength : (position digits).name.toList.length = digits := by rw [toList_position, List.length_replicate]
  have hlong := Scope.declaredName_of_tooLong List.not_mem_nil hdigits (hlength.symm ▸ h)
  rw [hlong, hlength]

theorem decodeBody_run (h : Numeral.digitLimit < digits) :
    Scanner.decodeBody (work digits) (run digits) (body digits) = .error (.position (.tooLong digits)) := by
  let scope := Scanner.scopeOf (work digits) (run digits)
  -- the fault of the parameter is passed on by every reader on the way up to the body
  have hparameter : scope.bindParameter (position digits) = .error (.position (.tooLong digits)) := by
    show (Scope.declaredName (position digits) [] >>= fun name => Except.ok _) = _
    rw [declaredName_position h]
    rfl
  have hparse : scope.parse (job digits).spell = .error (.position (.tooLong digits)) := by
    rw [Scope.parse, parse_job (Nat.ne_zero_of_lt h)]
    show scope.bind (.named "Demo.Job" [.param (position digits)]) = _
    rw [Scope.bind, Scope.bindAll, Scope.bind, hparameter]
    rfl
  have hspelled : Instruction.spelled scope (job digits).spell = .error (.position (.tooLong digits)) := by
    rw [Instruction.spelled, hparse]
    rfl
  have howner : Instruction.owner scope (.text (job digits).spell) = .error (.position (.tooLong digits)) := by
    show (Instruction.spelled scope (job digits).spell >>= fun arg => _) = _
    rw [hspelled]
    rfl
  have hdecode : Instruction.decode scope (.list [.symbol "newobj", .text (job digits).spell])
      = .error (.position (.tooLong digits)) := by
    show some <$> (Except.ok none >>= fun parameters =>
      Instruction.owner scope (.text (job digits).spell) >>= fun ref => _) = _
    rw [howner]
    rfl
  rw [Scanner.decodeBody, body, List.mapM_cons]
  show ((Instruction.decode scope _ >>= fun _ => _) >>= fun _ => _) = _
  rw [hdecode]
  rfl

theorem writable_demo : (demo digits).Writable where
  spelled := List.forall_mem_singleton.mpr (Workshop.spelled_declaring _ _ _)
  bodies := List.forall_mem_singleton.mpr (Workshop.plainBodies_declaring _ _ _)

theorem loaded_demo : (demo digits).Loaded := writable_demo.loaded

theorem fault_run (h : Numeral.digitLimit < digits) :
    (run digits).fault? (work digits) = some (.position (.tooLong digits)) := by
  rw [Method.fault?]
  show (match Scanner.decodeBody (work digits) (run digits) (body digits) with
    | .ok _ => none
    | .error fault => some fault) = _
  rw [decodeBody_run h]

theorem survey_demo (marker : String) (h : Numeral.digitLimit < digits) :
    survey marker [demo digits] = .error (.number (.tooLong digits)) := by
  obtain ⟨clean, -, -, hfound⟩ := mars_survey marker [demo digits]
  have hmethods : (Index.ofModules [demo digits]).methodsOf [demo digits] = [(work digits, run digits)] := rfl
  rw [hfound, hmethods, List.mapM_cons, skips, fault_run h]
  rfl

/-- The module without the body, where its method declares no more than its name. -/
theorem decodable_demo (h : Numeral.digitLimit < digits) : (demo digits).decodable =
    { demo digits with types := [{ work digits with methods := [{ run digits with body := none }] }] } := by
  have hbody : (run digits).decodableBody (work digits) = none := by
    show (some (body digits)).filter _ = none
    rw [Option.filter_some, decodeBody_run h]
    rfl
  show Module.mk _ _ [TypeDef.mk _ _ _ _ _ _ [(run digits).withBody ((run digits).decodableBody (work digits))] _ _]
    _ _ _ = _
  rw [hbody]
  rfl

/-- **With 4301 zeros the body stops the scan** of a module that was read. Without the body there is nothing to
find and nothing to report. -/
theorem body_stops_survey : (demo 4301).Loaded ∧
    survey "Unity.Jobs.LowLevel.Unsafe.JobProducerTypeAttribute" [demo 4301] = .error (.number (.tooLong 4301)) ∧
    survey "Unity.Jobs.LowLevel.Unsafe.JobProducerTypeAttribute" [(demo 4301).decodable] = .ok {} := by
  have hlong : Numeral.digitLimit < 4301 := by decide
  refine ⟨loaded_demo, survey_demo _ hlong, ?_⟩
  rw [decodable_demo hlong]
  rfl

end Overlong

end JobClosure
