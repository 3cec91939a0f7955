import JobClosure.CallSite.Scan
import JobClosure.Proofs.Except
import JobClosure.Proofs.Index.Order

/-!
# Scanning in another order

A scanner remembers the interfaces of the types that it asked about. As long as everything remembered is
right (`Index.Memo.Sound`), what is scanned next does not depend on what was scanned before, so a module
contributes the same wherever it stands in a list (`scanEach_eq`). In another order of the modules the scan
therefore finds the same, in another order (`scanEach_perm`).

Memory and index are treated in one go: everything is shown of two scanners, each with a memory of its own,
whose indexes agree on the names that occur in what is scanned.
-/

namespace JobClosure

/-! ## What is remembered -/

namespace Index

/-- What is remembered for a name that is defined are the interfaces of the definition. -/
def Memo.Sound (ix : Index) (memo : Memo) : Prop :=
  ∀ entry ∈ memo, ∀ type, ix.type? entry.1 = some type → entry.2 = ix.interfaceClosure type

theorem Memo.sound_nil (ix : Index) : Memo.Sound ix [] := fun _ h => absurd h List.not_mem_nil

/-- Two answers are the same, and what is remembered with them is right. -/
structure Alike {α : Type} (ix ix' : Index) (x x' : α × Memo) : Prop where
  answer : x.1 = x'.1
  left : x.2.Sound ix
  right : x'.2.Sound ix'

variable {known : String → Prop} {ix ix' : Index} {memo memo' : Memo}

theorem sound_interfacesOf {type : TypeDef} (htype : ix.type? type.fullName = some type) (h : memo.Sound ix) :
    (ix.interfacesOf memo type).1 = ix.interfaceClosure type ∧ (ix.interfacesOf memo type).2.Sound ix := by
  unfold interfacesOf
  split
  · rename_i known hknown
    obtain ⟨before, after, hmemo, -⟩ := List.lookup_eq_some_iff.mp hknown
    have hmem : (type.fullName, known) ∈ memo := by
      rw [hmemo]
      exact List.mem_append_right _ List.mem_cons_self
    exact ⟨h _ hmem type htype, h⟩
  · refine ⟨rfl, fun entry hentry other hother => ?_⟩
    rcases List.mem_append.mp hentry with hentry | hentry
    · exact h entry hentry other hother
    · obtain rfl := List.mem_singleton.mp hentry
      rw [Option.some.inj (htype.symm.trans hother)]

theorem Agrees.isJob (h : ix.Agrees known ix') (hmemo : memo.Sound ix) (hmemo' : memo'.Sound ix')
    (marker : String) {type : TypeDef} (hname : known type.fullName)
    (htype : ix.type? type.fullName = some type) :
    Alike ix ix' (ix.isJob marker memo type) (ix'.isJob marker memo' type) := by
  obtain ⟨hanswer, hnext⟩ := sound_interfacesOf htype hmemo
  obtain ⟨hanswer', hnext'⟩ := sound_interfacesOf ((h.type? _ hname).symm.trans htype) hmemo'
  unfold Index.isJob hasCapability
  split
  · exact ⟨rfl, hmemo, hmemo'⟩
  · refine ⟨?_, hnext, hnext'⟩
    dsimp only
    rw [hanswer, hanswer', h.interfaceClosure (h.reached hname htype)]

/-- **Whether a reference calls for an open job** does not depend on what was asked before. -/
theorem Agrees.isOpenJob (h : ix.Agrees known ix') (hmemo : memo.Sound ix) (hmemo' : memo'.Sound ix')
    (marker : String) {ref : TypeRef} (href : known ref.name) :
    Alike ix ix' (ix.isOpenJob marker memo ref) (ix'.isOpenJob marker memo' ref) := by
  unfold Index.isOpenJob
  rw [← h.type? _ href]
  split
  · split
    · rename_i type htype
      have hfound : ix.type? type.fullName = some type := by rw [fullName_of_type? htype, htype]
      exact h.isJob hmemo hmemo' marker (h.reached href htype).name hfound
    · exact ⟨rfl, hmemo, hmemo'⟩
  · exact ⟨rfl, hmemo, hmemo'⟩

end Index

open Index (Alike Memo)

/-- Two scanners look for the same jobs in indexes that agree on `known` names. -/
structure Scanner.Agrees (known : String → Prop) (s s' : Scanner) : Prop where
  index : s.index.Agrees known s'.index
  marker : s.marker = s'.marker

theorem Scanner.Agrees.refl (s : Scanner) : s.Agrees anyName s := ⟨.refl s.index, rfl⟩

theorem Scanner.Agrees.symm {known : String → Prop} {s s' : Scanner} (h : s.Agrees known s') :
    s'.Agrees known s :=
  ⟨h.index.symm, h.marker.symm⟩

namespace Scanner

/-- The references in an instruction have known names. -/
def NamesIn (known : String → Prop) (instruction : Instruction) : Prop :=
  ∀ ref ∈ candidates instruction, known ref.name

/-- What the body of a method names, if it can be decoded. -/
def NamesInBody (known : String → Prop) (type : TypeDef) (method : Method) : Prop :=
  ∀ body ∈ method.body, ∀ instructions, decodeBody type method body = .ok instructions →
    ∀ instruction ∈ instructions, NamesIn known instruction

/-- What the bodies of a type name. -/
def NamesInBodies (known : String → Prop) (type : TypeDef) : Prop :=
  ∀ method ∈ type.methods, NamesInBody known type method

theorem namesInBody_anyName (type : TypeDef) (method : Method) : NamesInBody anyName type method :=
  fun _ _ _ _ _ _ _ _ => trivial

theorem namesInBodies_anyName (type : TypeDef) : NamesInBodies anyName type :=
  fun method _ => namesInBody_anyName type method

variable {known : String → Prop} {s s' : Scanner} {memo memo' : Memo}

/-! ## One type -/

/-- Two scanners take the same references for open jobs and the same instructions for call sites, as far as `known`
names go and whatever they remember. -/
structure AsksAlike (known : String → Prop) (s s' : Scanner) : Prop where
  isOpenJob : ∀ {memo memo' : Memo} {ref : TypeRef}, memo.Sound s.index → memo'.Sound s'.index → known ref.name →
    Alike s.index s'.index (s.index.isOpenJob s.marker memo ref) (s'.index.isOpenJob s'.marker memo' ref)
  callSite? : ∀ (caller : MethodId) {instruction : Instruction}, NamesIn known instruction →
    s.callSite? caller instruction = s'.callSite? caller instruction

theorem AsksAlike.openJobs (h : AsksAlike known s s') (hmemo : memo.Sound s.index) (hmemo' : memo'.Sound s'.index)
    {refs : List TypeRef} (hrefs : ∀ ref ∈ refs, known ref.name) :
    Alike s.index s'.index (s.openJobs memo refs) (s'.openJobs memo' refs) := by
  induction refs generalizing memo memo' with
  | nil => exact ⟨rfl, hmemo, hmemo'⟩
  | cons ref rest ih =>
    obtain ⟨href, hrest⟩ := List.forall_mem_cons.mp hrefs
    have hfirst := h.isOpenJob hmemo hmemo' href
    rw [Scanner.openJobs, Scanner.openJobs]
    have hrest := ih hfirst.left hfirst.right hrest
    refine ⟨?_, hrest.left, hrest.right⟩
    dsimp only
    rw [hfirst.answer, hrest.answer]

theorem AsksAlike.scanInstruction (h : AsksAlike known s s') (hmemo : memo.Sound s.index)
    (hmemo' : memo'.Sound s'.index) (entry : MethodId) {instruction : Instruction}
    (hnames : NamesIn known instruction) :
    Alike s.index s'.index (s.scanInstruction memo entry instruction) (s'.scanInstruction memo' entry instruction) := by
  have hjobs := h.openJobs hmemo hmemo' hnames
  refine ⟨?_, hjobs.left, hjobs.right⟩
  rw [Scanner.scanInstruction, Scanner.scanInstruction, ← h.callSite? entry hnames]
  dsimp only
  rw [hjobs.answer]

theorem AsksAlike.scanInstructions (h : AsksAlike known s s') (hmemo : memo.Sound s.index)
    (hmemo' : memo'.Sound s'.index) (entry : MethodId) {instructions : List Instruction}
    (hnames : ∀ instruction ∈ instructions, NamesIn known instruction) :
    Alike s.index s'.index (s.scanInstructions memo entry instructions)
      (s'.scanInstructions memo' entry instructions) := by
  induction instructions generalizing memo memo' with
  | nil => exact ⟨rfl, hmemo, hmemo'⟩
  | cons first rest ih =>
    obtain ⟨hfirst, hrest⟩ := List.forall_mem_cons.mp hnames
    have hfirst := h.scanInstruction hmemo hmemo' entry hfirst
    have hrest := ih hfirst.left hfirst.right hrest
    rw [Scanner.scanInstructions, Scanner.scanInstructions]
    exact ⟨congrArg₂ (· ++ ·) hfirst.answer hrest.answer, hrest.left, hrest.right⟩

/-- The declaring type is among the references of an instruction. -/
theorem declaringType_mem_candidates (instruction : Instruction) :
    instruction.declaringType ∈ candidates instruction :=
  List.mem_flatMap.mpr ⟨_, List.mem_cons_self, List.mem_cons_self⟩

theorem Agrees.callSite? (h : s.Agrees known s') (caller : MethodId) {instruction : Instruction}
    (hnames : NamesIn known instruction) : s.callSite? caller instruction = s'.callSite? caller instruction := by
  have howner : known instruction.declaringType.name := hnames _ (declaringType_mem_candidates instruction)
  have hidentity : ∀ name ∈ (Identity.ref instruction.declaringType).canonicalName, known name :=
    fun _ hname => Option.some.inj hname ▸ howner
  rw [Scanner.callSite?, Scanner.callSite?, ← h.index.findMethod hidentity]
  split
  · rfl
  · rename_i callee hcallee
    obtain ⟨type, htype, hmem⟩ := Index.exists_type_of_findMethod hcallee
    have hdeclaring := (h.index.keeps _ type howner htype).methods callee hmem
    rw [Index.declaringType?, Index.declaringType?, h.index.type? _ hdeclaring]

/-- Scanners whose indexes agree on what is known ask alike. -/
theorem Agrees.asksAlike (h : s.Agrees known s') : AsksAlike known s s' where
  isOpenJob hmemo hmemo' href := by
    rw [← h.marker]
    exact h.index.isOpenJob hmemo hmemo' s.marker href
  callSite? caller _ hnames := h.callSite? caller hnames

/-- Two computations fail with the same error, or succeed with answers that are alike. -/
inductive AlikeIfAny (ix ix' : Index) : Except Error (ScanResult × Memo) → Except Error (ScanResult × Memo) → Prop
  | failed (error : Error) : AlikeIfAny ix ix' (.error error) (.error error)
  | found {x x' : ScanResult × Memo} (h : Alike ix ix' x x') : AlikeIfAny ix ix' (.ok x) (.ok x')

theorem Agrees.scanMethod (h : s.Agrees known s') (hmemo : memo.Sound s.index) (hmemo' : memo'.Sound s'.index)
    {type : TypeDef} {method : Method} (hnames : NamesInBody known type method) :
    AlikeIfAny s.index s'.index (s.scanMethod type memo method) (s'.scanMethod type memo' method) := by
  unfold Scanner.scanMethod
  split
  · exact .found ⟨rfl, hmemo, hmemo'⟩
  · rename_i body hbody
    split
    · rename_i instructions hdecoded
      exact .found (h.asksAlike.scanInstructions hmemo hmemo' method.id (hnames body hbody instructions hdecoded))
    · exact .found ⟨rfl, hmemo, hmemo'⟩
    · exact .failed _

theorem Agrees.scanMethods (h : s.Agrees known s') (hmemo : memo.Sound s.index) (hmemo' : memo'.Sound s'.index)
    {type : TypeDef} {methods : List Method} (hnames : ∀ method ∈ methods, NamesInBody known type method) :
    AlikeIfAny s.index s'.index (s.scanMethods type memo methods) (s'.scanMethods type memo' methods) := by
  induction methods generalizing memo memo' with
  | nil => exact .found ⟨rfl, hmemo, hmemo'⟩
  | cons method rest ih =>
    obtain ⟨hmethod, hmethods⟩ := List.forall_mem_cons.mp hnames
    have hfirst := h.scanMethod hmemo hmemo' hmethod
    rw [Scanner.scanMethods, Scanner.scanMethods]
    generalize s.scanMethod type memo method = first at hfirst ⊢
    generalize s'.scanMethod type memo' method = first' at hfirst ⊢
    cases hfirst with
    | failed error => exact .failed error
    | @found x x' hfirst =>
      have hrest := ih hfirst.left hfirst.right hmethods
      show AlikeIfAny s.index s'.index (s.scanMethods type x.2 rest >>= _) (s'.scanMethods type x'.2 rest >>= _)
      generalize s.scanMethods type x.2 rest = more at hrest ⊢
      generalize s'.scanMethods type x'.2 rest = more' at hrest ⊢
      cases hrest with
      | failed error => exact .failed error
      | @found y y' hrest =>
        refine .found ⟨?_, hrest.left, hrest.right⟩
        show x.1 ++ y.1 = x'.1 ++ y'.1
        rw [hfirst.answer, hrest.answer]

/-! ## Types and modules -/

end Scanner

/-- Work that is never cancelled, with a memory that is right. -/
structure ScanState.Ready (state : ScanState) (ix : Index) : Prop where
  memo : state.memo.Sound ix
  cancellation : state.cancellation = .never

theorem ScanState.ready_start (ix : Index) : ({} : ScanState).Ready ix := ⟨Memo.sound_nil ix, rfl⟩

namespace Scanner

variable {known : String → Prop} {s s' : Scanner} {state state' : ScanState}

/-- **Types are scanned alike**, and the work can go on. -/
theorem Agrees.scanTypes (h : s.Agrees known s') (hstate : state.Ready s.index)
    (hstate' : state'.Ready s'.index) {types : List TypeDef}
    (hnames : ∀ type ∈ types, NamesInBodies known type) :
    (s.scanTypes state types).1 = (s'.scanTypes state' types).1 ∧
      (s.scanTypes state types).2.Ready s.index ∧ (s'.scanTypes state' types).2.Ready s'.index := by
  induction types generalizing state state' with
  | nil => exact ⟨rfl, hstate, hstate'⟩
  | cons type rest ih =>
    obtain ⟨memo, cancellation⟩ := state
    obtain ⟨memo', cancellation'⟩ := state'
    obtain ⟨hmemo, rfl⟩ := hstate
    obtain ⟨hmemo', rfl⟩ := hstate'
    obtain ⟨htype, htypes⟩ := List.forall_mem_cons.mp hnames
    have hfirst := h.scanMethods hmemo hmemo' htype
    rw [Scanner.scanTypes, Scanner.scanTypes, scanType, scanType]
    dsimp only [Cancellation.ask?]
    generalize s.scanMethods type memo type.methods = first at hfirst ⊢
    generalize s'.scanMethods type memo' type.methods = first' at hfirst ⊢
    cases hfirst with
    | failed error => exact ⟨rfl, ⟨hmemo, rfl⟩, ⟨hmemo', rfl⟩⟩
    | @found x x' hfirst =>
      obtain ⟨hrest, hnext, hnext'⟩ :=
        @ih ⟨x.2, .never⟩ ⟨x'.2, .never⟩ ⟨hfirst.left, rfl⟩ ⟨hfirst.right, rfl⟩ htypes
      refine ⟨?_, hnext, hnext'⟩
      dsimp only
      rw [hrest, hfirst.answer]

theorem Agrees.scanModule (h : s.Agrees known s') (hstate : state.Ready s.index)
    (hstate' : state'.Ready s'.index) {m : Module} (htypes : s.index.typesOf m = s'.index.typesOf m)
    (hnames : ∀ type ∈ s.index.typesOf m, NamesInBodies known type) :
    (s.scanModule state m).1 = (s'.scanModule state' m).1 ∧ (s.scanModule state m).2.Ready s.index := by
  obtain ⟨hresult, hnext, -⟩ := h.scanTypes hstate hstate' hnames
  rw [Scanner.scanModule, Scanner.scanModule, ← htypes]
  exact ⟨congrArg (Except.map ScanResult.dedupeCalls) hresult, hnext⟩

/-- After all modules the work could still go on. -/
theorem ready_scanEach (s : Scanner) (hstate : state.Ready s.index) (modules : List Module) :
    (s.scanEach state modules).2.Ready s.index := by
  induction modules generalizing state with
  | nil => exact hstate
  | cons m rest ih =>
    obtain ⟨-, hnext⟩ := (Agrees.refl s).scanModule hstate hstate (m := m) rfl fun type _ => namesInBodies_anyName type
    rw [scanEach]
    generalize s.scanModule state m = first at hnext ⊢
    obtain ⟨first, next⟩ := first
    cases first with
    | error error => exact hnext
    | ok first => exact ih hnext

/-! ## Modules in another order -/

/-- Finds put together in order. -/
def together (finds : List ScanResult) : ScanResult := finds.foldr (· ++ ·) {}

/-- **Every module contributes what it contributes alone.** -/
theorem scanEach_eq (s : Scanner) (hstate : state.Ready s.index) (modules : List Module) :
    (s.scanEach state modules).1 = together <$> modules.mapM fun m => (s.scanModule {} m).1 := by
  induction modules generalizing state with
  | nil => rfl
  | cons m rest ih =>
    obtain ⟨hfirst, hnext⟩ := (Agrees.refl s).scanModule hstate (ScanState.ready_start s.index) (m := m) rfl
      fun type _ => namesInBodies_anyName type
    rw [scanEach, List.mapM_cons, ← hfirst]
    generalize s.scanModule state m = first at hnext ⊢
    obtain ⟨first, next⟩ := first
    cases first with
    | error error => rfl
    | ok first =>
      dsimp only
      rw [ih hnext]
      cases List.mapM (fun m => (s.scanModule {} m).1) rest with
      | error error => rfl
      | ok more => rfl

end Scanner

/-- The same finds in another order. -/
structure ScanResult.Perm (r r' : ScanResult) : Prop where
  calls : r.calls.Perm r'.calls
  callSites : r.callSites.Perm r'.callSites
  diagnostics : r.diagnostics.Perm r'.diagnostics

namespace Scanner

variable {s s' : Scanner}

/-- What is put together has the parts of all finds, whatever part is looked at. -/
theorem part_together {α : Type} {part : ScanResult → List α} (hempty : part {} = [])
    (happend : ∀ r r', part (r ++ r') = part r ++ part r') (finds : List ScanResult) :
    part (together finds) = finds.flatMap part := by
  induction finds with
  | nil => exact hempty
  | cons r finds ih => rw [List.flatMap_cons, ← ih, ← happend]; rfl

theorem calls_together (finds : List ScanResult) : (together finds).calls = finds.flatMap (·.calls) :=
  part_together rfl (fun _ _ => rfl) finds

theorem callSites_together (finds : List ScanResult) :
    (together finds).callSites = finds.flatMap (·.callSites) :=
  part_together rfl (fun _ _ => rfl) finds

theorem diagnostics_together (finds : List ScanResult) :
    (together finds).diagnostics = finds.flatMap (·.diagnostics) :=
  part_together rfl (fun _ _ => rfl) finds

theorem perm_together {finds finds' : List ScanResult} (hperm : finds.Perm finds') :
    (together finds).Perm (together finds') := by
  refine ⟨?_, ?_, ?_⟩
  · rw [calls_together, calls_together]
    exact hperm.flatMap_right _
  · rw [callSites_together, callSites_together]
    exact hperm.flatMap_right _
  · rw [diagnostics_together, diagnostics_together]
    exact hperm.flatMap_right _

/-- **In another order of the modules a scan finds the same**, in another order. -/
theorem Agrees.scanEach_perm (h : s.Agrees anyName s') {modules modules' : List Module} (hperm : modules.Perm modules')
    (htypes : ∀ m ∈ modules, s.index.typesOf m = s'.index.typesOf m) {raw : ScanResult}
    (hraw : (s.scanEach {} modules).1 = .ok raw) :
    ∃ raw', (s'.scanEach {} modules').1 = .ok raw' ∧ raw.Perm raw' := by
  rw [scanEach_eq s (ScanState.ready_start s.index)] at hraw
  rw [scanEach_eq s' (ScanState.ready_start s'.index)]
  obtain ⟨finds, hfinds, rfl⟩ := map_eq_ok hraw
  have hsame : (modules.mapM fun m => (s'.scanModule {} m).1) = .ok finds := by
    refine mapM_eq_ok_of_imp (fun m hm found hfound => ?_) hfinds
    have hmodule := h.scanModule (ScanState.ready_start s.index) (ScanState.ready_start s'.index) (htypes m hm)
      fun type _ => namesInBodies_anyName type
    rw [← hmodule.1, hfound]
  obtain ⟨finds', hfinds', hperm⟩ := mapM_perm hperm hsame
  exact ⟨together finds', by rw [hfinds']; rfl, perm_together hperm⟩

end Scanner

end JobClosure
