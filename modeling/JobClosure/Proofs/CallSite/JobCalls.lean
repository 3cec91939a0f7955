import JobClosure.Proofs.CallSite.Malformed
import JobClosure.Proofs.CallSite.Ownership
import JobClosure.Proofs.Index.Interfaces
import Mathlib

/-!
# The job calls of a type

What a scan finds in a type is a function of the instructions of its methods (`Scanner.findsIn_eq`). The call
references are the references to job types with open parameters, in the order of methods, instructions, operands and
nested references (`Scanner.callsIn`); the call sites are the instructions that call an indexed method, in order
(`Scanner.sitesIn`). What the scanner remembers plays no part in either.

So a scan of one type lists the job calls exactly, or it is stopped: by a body with an overlong position, and by
nothing else (`Scanner.scanType_calls`).
-/

namespace JobClosure

open Index (Alike Memo)

/-! ## What is asked of the index -/

namespace Index

variable {ix : Index} {marker : String} {memo : Memo} {type : TypeDef} {ref : TypeRef}

theorem isJob_iff (hmemo : memo.Sound ix) (htype : ix.Canonical type) :
    (ix.isJob marker memo type).1 = true ↔ ix.JobType marker type := by
  obtain ⟨hanswer, -⟩ := sound_interfacesOf htype hmemo
  unfold isJob hasCapability
  split
  · rename_i hinterface
    exact iff_of_false Bool.false_ne_true fun h => absurd (h.noInterface.symm.trans hinterface) Bool.false_ne_true
  · rename_i hinterface
    dsimp only
    rw [hanswer, List.any_eq_true]
    constructor
    · rintro ⟨interface, hmem, hmarker⟩
      refine ⟨by simpa using hinterface, interface, (mem_interfaceClosure_iff htype).mp hmem, ?_⟩
      exact List.contains_iff_mem.mp hmarker
    · rintro ⟨-, interface, himplements, hmarker⟩
      exact ⟨interface, (mem_interfaceClosure_iff htype).mpr himplements, List.contains_iff_mem.mpr hmarker⟩

theorem exists_occurrence_iff : (∃ p, p ∈ ref.toArg.occurrences) ↔ ref.isOpen = true := by
  rw [TypeRef.isOpen, ← Bool.not_eq_false, TypeArg.isOpen_eq_false_iff]
  exact ⟨fun ⟨_, hp⟩ => List.ne_nil_of_mem hp, List.exists_mem_of_ne_nil _⟩

/-- **What is asked of a reference** is whether it is an open job. -/
theorem isOpenJob_iff (hmemo : memo.Sound ix) :
    (ix.isOpenJob marker memo ref).1 = true ↔ ix.OpenJob marker ref := by
  unfold isOpenJob
  split
  · rename_i hopen
    have hparameter := exists_occurrence_iff.mpr hopen
    cases htype : ix.type? ref.name with
    | none =>
      refine iff_of_false Bool.false_ne_true ?_
      rintro ⟨-, type, hfound, -⟩
      exact nomatch htype.symm.trans hfound
    | some type =>
      rw [isJob_iff hmemo (canonical_of_type? htype)]
      constructor
      · exact fun hjob => ⟨hparameter, type, htype, hjob⟩
      · rintro ⟨-, other, hfound, hjob⟩
        rwa [Option.some.inj (htype.symm.trans hfound)]
  · rename_i hopen
    exact iff_of_false Bool.false_ne_true fun h => hopen (exists_occurrence_iff.mp h.parameter)

instance (ix : Index) (marker : String) : DecidablePred (ix.OpenJob marker) :=
  fun ref => decidable_of_iff ((ix.isOpenJob marker [] ref).1 = true) (isOpenJob_iff (Memo.sound_nil ix))

end Index

/-- The instructions of a method. A body that is absent or cannot be decoded has none. -/
def Method.instructions (type : TypeDef) (method : Method) : List Instruction :=
  match method.body with
  | none => []
  | some body => (Scanner.decodeBody type method body).toOption.getD []

namespace Scanner

/-- The call references of an instruction: the open jobs in its declaring type, then those in each type argument. -/
def callsOf (s : Scanner) (entry : MethodId) (instruction : Instruction) : List CallReference :=
  (instruction.declaringType.toArg :: instruction.typeArguments).flatMap fun arg =>
    (arg.nested.filter fun ref => s.index.OpenJob s.marker ref).map fun ref =>
      ⟨entry, ref.toArg, invokedText instruction⟩

/-- The call references of a type, by its methods and their instructions. -/
def callsIn (s : Scanner) (type : TypeDef) : List CallReference :=
  type.methods.flatMap fun method => (method.instructions type).flatMap (s.callsOf method.id)

/-- The call sites of a type, by its methods and their instructions. -/
def sitesIn (s : Scanner) (type : TypeDef) : List CallSite :=
  type.methods.flatMap fun method => (method.instructions type).filterMap (s.callSite? method.id)

variable {s : Scanner} {memo : Memo}

/-! ## One method -/

theorem openJobs_eq (hmemo : memo.Sound s.index) (refs : List TypeRef) :
    (s.openJobs memo refs).1 = refs.filter fun ref => s.index.OpenJob s.marker ref := by
  induction refs generalizing memo with
  | nil => rfl
  | cons ref rest ih =>
    have hask : Alike s.index s.index (s.index.isOpenJob s.marker memo ref) (s.index.isOpenJob s.marker memo ref) :=
      (Index.Agrees.refl s.index).isOpenJob hmemo hmemo s.marker trivial
    rw [openJobs, List.filter_cons]
    dsimp only
    rw [ih hask.left]
    by_cases hjob : s.index.OpenJob s.marker ref
    · rw [(Index.isOpenJob_iff hmemo).mpr hjob, if_pos rfl, if_pos (decide_eq_true hjob)]
    · rw [if_neg (mt (Index.isOpenJob_iff hmemo).mp hjob), decide_eq_false hjob, if_neg Bool.false_ne_true]

theorem calls_scanInstruction (hmemo : memo.Sound s.index) (entry : MethodId) (instruction : Instruction) :
    (s.scanInstruction memo entry instruction).1.calls = s.callsOf entry instruction := by
  show (s.openJobs memo (candidates instruction)).1.map _ = _
  rw [openJobs_eq hmemo, candidates, List.filter_flatMap, List.map_flatMap]
  rfl

theorem calls_scanInstructions (hmemo : memo.Sound s.index) (entry : MethodId) (instructions : List Instruction) :
    (s.scanInstructions memo entry instructions).1.calls = instructions.flatMap (s.callsOf entry) := by
  induction instructions generalizing memo with
  | nil => rfl
  | cons first rest ih =>
    have hnames : NamesIn anyName first := fun _ _ => trivial
    have hnext := ((Agrees.refl s).asksAlike.scanInstruction hmemo hmemo entry hnames).left
    show (s.scanInstruction memo entry first).1.calls
      ++ (s.scanInstructions (s.scanInstruction memo entry first).2 entry rest).1.calls = _
    rw [calls_scanInstruction hmemo, ih hnext, List.flatMap_cons]

theorem callSites_scanInstructions (s : Scanner) (memo : Index.Memo) (entry : MethodId)
    (instructions : List Instruction) :
    (s.scanInstructions memo entry instructions).1.callSites = instructions.filterMap (s.callSite? entry) := by
  induction instructions generalizing memo with
  | nil => rfl
  | cons first rest ih =>
    show (s.callSite? entry first).toList ++ (s.scanInstructions _ entry rest).1.callSites = _
    rw [ih, List.filterMap_cons]
    cases s.callSite? entry first <;> rfl

/-- **What instructions contribute.** -/
theorem scanInstructions_eq (hmemo : memo.Sound s.index) (entry : MethodId) (instructions : List Instruction) :
    (s.scanInstructions memo entry instructions).1
      = ⟨instructions.flatMap (s.callsOf entry), instructions.filterMap (s.callSite? entry), []⟩ :=
  ScanResult.eq_iff.mpr ⟨calls_scanInstructions hmemo entry instructions,
    callSites_scanInstructions s memo entry instructions, diagnostics_scanInstructions s memo entry instructions⟩

/-- What a method contributes, unless it stops the scan. -/
theorem findsInMethod_eq (s : Scanner) (type : TypeDef) (method : Method) :
    s.findsInMethod type method = (fun skipped => (⟨(method.instructions type).flatMap (s.callsOf method.id),
      (method.instructions type).filterMap (s.callSite? method.id), skipped⟩ : ScanResult)) <$> skips (type, method) := by
  rw [findsInMethod, scanMethod, Method.instructions, skips, Method.fault?]
  cases method.body with
  | none => rfl
  | some body =>
    dsimp only
    cases decodeBody type method body with
    | ok instructions => exact congrArg Except.ok (scanInstructions_eq (Memo.sound_nil _) method.id instructions)
    | error fault => cases fault <;> rfl

/-! ## One type -/

/-- **What a type contributes** when it is scanned alone, unless one of its methods stops the scan. -/
theorem findsIn_eq (s : Scanner) (type : TypeDef) : s.findsIn type =
    (fun skipped => (⟨s.callsIn type, s.sitesIn type, skipped.flatten⟩ : ScanResult)) <$>
      (methodsOf type).mapM skips := by
  rw [findsIn, scanType, scanMethods_eq (Memo.sound_nil _), callsIn, sitesIn, methodsOf]
  induction type.methods with
  | nil => rfl
  | cons method rest ih =>
    rw [together_mapM_cons, ih, findsInMethod_eq, List.map_cons, List.mapM_cons]
    cases skips (type, method) with
    | error error => rfl
    | ok skipped => cases (rest.map fun method => (type, method)).mapM skips <;> rfl

theorem readIn_of_mem_instructions {type : TypeDef} {method : Method} {instruction : Instruction}
    (h : instruction ∈ method.instructions type) : instruction.ReadIn (scopeOf type method) := by
  unfold Method.instructions at h
  split at h
  · exact absurd h List.not_mem_nil
  · rename_i body _
    cases hdecode : decodeBody type method body with
    | error fault =>
      rw [hdecode] at h
      exact absurd h List.not_mem_nil
    | ok instructions =>
      rw [hdecode] at h
      exact decodeBody_readIn hdecode instruction h

/-- A call reference of a type is in terms of the method that it stands in. -/
theorem within_of_mem_callsIn {type : TypeDef} {call : CallReference} (h : call ∈ s.callsIn type) :
    ∃ method ∈ type.methods, call.entry = method.id ∧ call.target.Within (scopeOf type method) := by
  obtain ⟨method, hmethod, h⟩ := List.mem_flatMap.mp h
  obtain ⟨instruction, hinstruction, h⟩ := List.mem_flatMap.mp h
  obtain ⟨arg, harg, h⟩ := List.mem_flatMap.mp h
  obtain ⟨ref, href, rfl⟩ := List.mem_map.mp h
  refine ⟨method, hmethod, rfl, fun p hp => ?_⟩
  obtain ⟨text, htext⟩ := readIn_of_mem_instructions hinstruction arg harg
  exact Scope.parse_within htext p (TypeArg.occurrences_subset_of_nested arg (List.mem_filter.mp href).1 hp)

/--
**Job calls are found exactly, unless a position is overlong.**

A scan of one type, with an index that has not been asked before, lists the open jobs among the references that are
nested in the operands of its instructions, in the order of methods, instructions, operands and nested references.
Every one is in terms of the method that it stands in. The only other outcome is that some body is overlong, and then
the scan of the type is stopped.
-/
theorem scanType_calls (marker : String) (modules : List Module) (type : TypeDef) :
    ((∀ method ∈ type.methods, ¬ method.Overlong type) ∧
      ∃ found memo, scanType ⟨Index.ofModules modules, marker⟩ [] type = .ok (found, memo) ∧
        found.calls = (type.methods.flatMap fun method =>
          (method.instructions type).flatMap fun instruction =>
            (instruction.declaringType.toArg :: instruction.typeArguments).flatMap fun arg =>
              (arg.nested.filter fun ref => (Index.ofModules modules).OpenJob marker ref).map fun ref =>
                ⟨method.id, ref.toArg, invokedText instruction⟩) ∧
        ∀ call ∈ found.calls, ∃ method ∈ type.methods,
          call.entry = method.id ∧ call.target.Within (scopeOf type method)) ∨
    ((∃ method ∈ type.methods, method.Overlong type) ∧
      ∃ digits, Numeral.digitLimit < digits ∧
        scanType ⟨Index.ofModules modules, marker⟩ [] type = .error (.number (.tooLong digits))) := by
  let s : Scanner := ⟨Index.ofModules modules, marker⟩
  have hfinds := findsIn_eq s type
  rw [findsIn] at hfinds
  rcases mapM_skips_cases (methodsOf type) with ⟨hshort, skipped, hskipped, -⟩ | ⟨⟨entry, hentry, hover⟩, digits, hlong, herror⟩
  · refine .inl ⟨fun method hmethod => hshort _ (List.mem_map_of_mem hmethod), ?_⟩
    rw [hskipped] at hfinds
    obtain ⟨⟨found, memo⟩, hscan, hfound⟩ := map_eq_ok hfinds
    obtain rfl : found = _ := hfound
    exact ⟨_, memo, hscan, rfl, fun call hcall => within_of_mem_callsIn hcall⟩
  · obtain ⟨method, hmethod, rfl⟩ := List.mem_map.mp hentry
    rw [herror] at hfinds
    exact .inr ⟨⟨method, hmethod, hover⟩, digits, hlong, map_eq_error hfinds⟩

/-! ## Modules -/

theorem calls_of_findsIn {type : TypeDef} {found : ScanResult} (h : s.findsIn type = .ok found) :
    found.calls = s.callsIn type ∧ found.callSites = s.sitesIn type := by
  rw [findsIn_eq] at h
  obtain ⟨skipped, -, rfl⟩ := map_eq_ok h
  exact ⟨rfl, rfl⟩

theorem together_findsIn {types : List TypeDef} {finds : List ScanResult} (h : types.mapM s.findsIn = .ok finds) :
    (together finds).calls = types.flatMap s.callsIn ∧ (together finds).callSites = types.flatMap s.sitesIn := by
  induction types generalizing finds with
  | nil =>
    obtain rfl : [] = finds := Except.ok.inj h
    exact ⟨rfl, rfl⟩
  | cons type rest ih =>
    rw [List.mapM_cons] at h
    obtain ⟨first, hfirst, h⟩ := bind_eq_ok h
    obtain ⟨more, hmore, h⟩ := bind_eq_ok h
    obtain rfl : first :: more = finds := Except.ok.inj h
    obtain ⟨hcalls, hsites⟩ := calls_of_findsIn hfirst
    obtain ⟨hrest, hrest'⟩ := ih hmore
    constructor
    · show first.calls ++ (together more).calls = _
      rw [hcalls, hrest, List.flatMap_cons]
    · show first.callSites ++ (together more).callSites = _
      rw [hsites, hrest', List.flatMap_cons]

/-- **Every call reference that a scan keeps** is one of a type that the index holds for a scanned module. -/
theorem mem_callsIn_of_scanModules {state : ScanState} (hstate : state.Ready s.index) {modules : List Module}
    {found : ScanResult} (h : (s.scanModules state modules).1 = .ok found) :
    ∀ call ∈ found.calls, ∃ m ∈ modules, ∃ type ∈ s.index.typesOf m, call ∈ s.callsIn type := by
  obtain ⟨raw, hraw, rfl⟩ := map_eq_ok h
  rw [scanEach_eq s hstate] at hraw
  obtain ⟨finds, hfinds, rfl⟩ := map_eq_ok hraw
  intro call hcall
  have hcall : call ∈ (together finds).calls := mem_of_mem_distinctBy hcall
  rw [calls_together] at hcall
  obtain ⟨ofModule, hmem, hcall⟩ := List.mem_flatMap.mp hcall
  obtain ⟨m, hm, hscan⟩ := exists_mem_of_mem_mapM hfinds ofModule hmem
  obtain ⟨ofTypes, htypes, rfl⟩ := map_eq_ok hscan
  rw [scanTypes_eq (ScanState.ready_start _)] at htypes
  obtain ⟨parts, hparts, rfl⟩ := map_eq_ok htypes
  have hcall : call ∈ (together parts).calls := mem_of_mem_distinctBy hcall
  rw [(together_findsIn hparts).1] at hcall
  obtain ⟨type, htype, hcall⟩ := List.mem_flatMap.mp hcall
  exact ⟨m, hm, type, htype, hcall⟩

/-- A call reference of a type names an open job. -/
theorem openJob_of_mem_callsIn {type : TypeDef} {call : CallReference} (h : call ∈ s.callsIn type) :
    ∃ ref : TypeRef, call.target = ref.toArg ∧ s.index.OpenJob s.marker ref := by
  obtain ⟨method, -, h⟩ := List.mem_flatMap.mp h
  obtain ⟨instruction, -, h⟩ := List.mem_flatMap.mp h
  obtain ⟨arg, -, h⟩ := List.mem_flatMap.mp h
  obtain ⟨ref, href, rfl⟩ := List.mem_map.mp h
  exact ⟨ref, rfl, of_decide_eq_true (List.mem_filter.mp href).2⟩

end Scanner

/-- Modules are scanned unless a body that the scan comes to is overlong. -/
theorem survey_or_overlong (marker : String) (modules : List Module) :
    ((∀ entry ∈ (Index.ofModules modules).methodsOf modules, ¬ entry.2.Overlong entry.1) ∧
      ∃ found, survey marker modules = .ok found) ∨
    ((∃ entry ∈ (Index.ofModules modules).methodsOf modules, entry.2.Overlong entry.1) ∧
      ∃ digits, Numeral.digitLimit < digits ∧ survey marker modules = .error (.number (.tooLong digits))) := by
  obtain ⟨clean, -, -, hfound⟩ := mars_survey marker modules
  rw [hfound]
  rcases Scanner.mapM_skips_cases ((Index.ofModules modules).methodsOf modules) with
    ⟨hshort, skipped, hskipped, -⟩ | ⟨hover, digits, hlong, herror⟩
  · rw [hskipped]
    exact .inl ⟨hshort, _, rfl⟩
  · rw [herror]
    exact .inr ⟨hover, digits, hlong, rfl⟩

/-- Modules are scanned unless a position is overlong. -/
theorem survey_cases (marker : String) (modules : List Module) :
    (∃ found, survey marker modules = .ok found) ∨
      ∃ digits, Numeral.digitLimit < digits ∧ survey marker modules = .error (.number (.tooLong digits)) :=
  (survey_or_overlong marker modules).imp And.right And.right

/-- **What modules contribute**: the call references and call sites of the types that the index holds for them, the
call references once for every key. -/
theorem finds_of_survey {marker : String} {modules : List Module} {found : ScanResult}
    (h : survey marker modules = .ok found) :
    found.calls = CallReference.dedupe ((modules.flatMap (Index.ofModules modules).typesOf).flatMap
      (Scanner.callsIn ⟨Index.ofModules modules, marker⟩)) ∧
    found.callSites = (modules.flatMap (Index.ofModules modules).typesOf).flatMap
      (Scanner.sitesIn ⟨Index.ofModules modules, marker⟩) := by
  rw [survey_eq_typesOf] at h
  obtain ⟨finds, hfinds, rfl⟩ := map_eq_ok h
  obtain ⟨hcalls, hsites⟩ := Scanner.together_findsIn hfinds
  exact ⟨congrArg CallReference.dedupe hcalls, hsites⟩

/-! ## A job call that is lost

The type of `Overlong.demo` has another method, which constructs a job in terms of its own parameter. -/

namespace Overlong

def builder : Workshop.Worker where
  name := "Build"
  genericParams := ["U"]
  tasks := [.make "Demo.Job<!!U>"]

def build : Method := builder.method "Demo" "Demo.Work"

def runs : TypeDef where
  fullName := "Demo.IJob"
  attributes := [Index.defaultMarker]
  isInterface := true
  module := "Demo"

def template : TypeDef where
  fullName := "Demo.Job"
  genericParams := ["A"]
  interfaces := [⟨"Demo.IJob", []⟩]
  module := "Demo"

variable (digits : Nat)

def busy : TypeDef := Workshop.declaring "Demo" "Demo.Work" [builder, maker digits]

def plant : Module where
  name := "Demo"
  types := [runs, template, busy digits]

def built : TypeRef := ⟨"Demo.Job", [.param ⟨build.id.text, "U", true⟩]⟩

variable {digits}

theorem spelled_plant : (plant digits).Spelled := by
  have hruns : runs.Spelled "Demo" := ⟨rfl, nofun, nofun⟩
  have htemplate : template.Spelled "Demo" := by
    refine ⟨rfl, fun ref href => ?_, nofun⟩
    rw [List.mem_singleton.mp href]
    exact ⟨⟨rfl, trivial⟩, nofun⟩
  have hbusy : (busy digits).Spelled "Demo" := Workshop.spelled_declaring _ _ _
  exact List.forall_mem_cons.mpr ⟨hruns, List.forall_mem_cons.mpr ⟨htemplate, List.forall_mem_singleton.mpr hbusy⟩⟩

theorem writable_plant : (plant digits).Writable where
  spelled := spelled_plant
  bodies := List.forall_mem_cons.mpr
    ⟨nofun, List.forall_mem_cons.mpr ⟨nofun, List.forall_mem_singleton.mpr (Workshop.plainBodies_declaring _ _ _)⟩⟩

theorem loaded_plant : (plant digits).Loaded := writable_plant.loaded

theorem index_plant : Index.ofModules [plant digits]
    = ⟨[("Demo", (plant digits).types)], (plant digits).types, [build, run digits]⟩ := by
  cbv

theorem openJob_built : (Index.ofModules [plant digits]).OpenJob Index.defaultMarker built := by
  rw [index_plant]
  refine ⟨⟨_, List.mem_singleton_self _⟩, template, rfl, rfl, runs, ?_, List.mem_singleton_self _⟩
  exact ⟨template, .refl, _, List.mem_singleton_self _, rfl⟩

/-- Another method changes nothing about the scope of a body. -/
theorem decodeBody_busy (method : Method) (forms : List Form) :
    Scanner.decodeBody (busy digits) method forms = Scanner.decodeBody (work digits) method forms := rfl

theorem callsIn_busy (h : Numeral.digitLimit < digits) :
    Scanner.callsIn ⟨Index.ofModules [plant digits], Index.defaultMarker⟩ (busy digits)
      = [⟨build.id, built.toArg, "Demo.Job<!!U>::.ctor"⟩] := by
  have hrun : (run digits).instructions (busy digits) = [] := by
    show (Scanner.decodeBody (busy digits) (run digits) (body digits)).toOption.getD [] = []
    rw [decodeBody_busy, decodeBody_run h]
    rfl
  have hbuild : build.instructions (busy digits) = [⟨"newobj", built, ".ctor", [], none⟩] := by cbv
  have hnested : (built.toArg.nested.filter fun ref =>
      (Index.ofModules [plant digits]).OpenJob Index.defaultMarker ref) = [built] := by
    rw [show built.toArg.nested = [built] from rfl, List.filter_singleton, decide_eq_true openJob_built]
    rfl
  have hmethods : (busy digits).methods = [build, run digits] := rfl
  rw [Scanner.callsIn, hmethods, List.flatMap_cons, List.flatMap_singleton, hrun, hbuild, List.flatMap_nil,
    List.append_nil, List.flatMap_singleton, Scanner.callsOf, List.flatMap_singleton, hnested, List.map_singleton]
  rfl

theorem scanType_busy (h : Numeral.digitLimit < digits) (s : Scanner) :
    s.scanType [] (busy digits) = .error (.number (.tooLong digits)) := by
  have hfault : (run digits).fault? (busy digits) = some (.position (.tooLong digits)) := fault_run h
  have hbuild : Scanner.skips (busy digits, build) = .ok [] := by cbv
  have hskips : (Scanner.methodsOf (busy digits)).mapM Scanner.skips = .error (.number (.tooLong digits)) := by
    show [(busy digits, build), (busy digits, run digits)].mapM Scanner.skips = _
    rw [List.mapM_cons, hbuild, List.mapM_cons, Scanner.skips, hfault]
    rfl
  have hfinds := Scanner.findsIn_eq s (busy digits)
  rw [hskips] at hfinds
  exact map_eq_error hfinds

theorem busy_mem_allTypes : busy digits ∈ (Index.ofModules [plant digits]).allTypes := by
  rw [index_plant]
  exact List.mem_cons_of_mem _ (List.mem_cons_of_mem _ List.mem_cons_self)

/-- **With 4301 zeros a job call is lost** in a module that was read: it is there, and the scan of its type fails. -/
theorem job_call_lost : (plant 4301).Loaded ∧ busy 4301 ∈ (Index.ofModules [plant 4301]).allTypes ∧
    Scanner.callsIn ⟨Index.ofModules [plant 4301], Index.defaultMarker⟩ (busy 4301)
      = [⟨build.id, built.toArg, "Demo.Job<!!U>::.ctor"⟩] ∧
    Scanner.scanType ⟨Index.ofModules [plant 4301], Index.defaultMarker⟩ [] (busy 4301)
      = .error (.number (.tooLong 4301)) := by
  have hlong : Numeral.digitLimit < 4301 := by decide
  exact ⟨loaded_plant, busy_mem_allTypes, callsIn_busy hlong, scanType_busy hlong _⟩

end Overlong

end JobClosure
