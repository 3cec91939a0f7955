import JobClosure.Proofs.CallSite.Workshop
import JobClosure.Proofs.Instantiation.Order
import JobClosure.Proofs.Instantiation.Shadowed
import JobClosure.Proofs.Store.Regrouped
import JobClosure.Proofs.Store.Target

/-!
# Running a request again

A request that succeeded can be run again on the files that it left behind. It answers the same instantiations
and the same group, and it leaves every file as it is (`Request.run_again`). In between the target has gained the
group, which is itself made of jobs; but nobody else uses the names of the group, so that the second run loads the
same modules up to these types and finds in them what the first run found.
-/

namespace JobClosure

open Synthesis (closedRefs groupTypes newTypes)

/-! ## Sessions -/

namespace Session

open Store (Noted)

/-- A scan that is made answers what the modules hold. -/
theorem scan_of_known {s : Session} {known : Index} (hknown : s.knownIndex = some known) (hnew : s.knownScan = none)
    {result : Except Error ScanResult} {state : ScanState}
    (hscan : Scanner.scanModules ⟨known, s.marker⟩ ⟨[], s.cancellation⟩ s.modules = (result, state)) :
    ∃ s', s.scan = (result, s') ∧ s.store.Noted s'.store ∧ s'.knownIndex = some known ∧
      s'.cancellation = state.cancellation := by
  have hindex : s.index = (known, s) := by rw [index, hknown]
  rw [scan, hnew]
  dsimp only
  rw [hindex]
  dsimp only
  rw [hscan]
  cases result with
  | error error => exact ⟨_, rfl, ⟨_, _, rfl⟩, hknown, rfl⟩
  | ok found => exact ⟨_, rfl, Store.noted_report _ _, hknown, rfl⟩

/-- A new session that has made its index. -/
def indexed (options : AnalysisOptions) (store : Store) : Session :=
  { ofStore options store with
    store := store.note (Index.build store.modules).2
    knownIndex := some (Index.ofModules store.modules) }

theorem index_ofStore (options : AnalysisOptions) (store : Store) :
    (ofStore options store).index = (Index.ofModules store.modules, indexed options store) := rfl

/-- **A new session answers the instantiations of its modules**, and it has made the index of them. -/
theorem resolve_ofStore (options : AnalysisOptions) (store : Store) (hnever : options.cancellation = .never) :
    ∃ s, (ofStore options store).resolve = (instantiations options.marker store.modules, s) ∧
      store.Noted s.store ∧ s.knownIndex = some (Index.ofModules store.modules) := by
  obtain ⟨marker, cancellation⟩ := options
  obtain rfl : cancellation = .never := hnever
  have hready :=
    Scanner.ready_scanEach ⟨Index.ofModules store.modules, marker⟩ (ScanState.ready_start _) store.modules
  cases hscan : Scanner.scanModules ⟨Index.ofModules store.modules, marker⟩ {} store.modules with
  | mk result state =>
    have hgoes : state.cancellation = .never := (congrArg (·.2.cancellation) hscan).symm.trans hready.cancellation
    have hsurvey : survey marker store.modules = result := congrArg Prod.fst hscan
    obtain ⟨scanned, hscanned, hnoted, hknown, hcancellation⟩ :=
      @scan_of_known (indexed ⟨marker, .never⟩ store) _ rfl rfl _ _ hscan
    -- the index and the reports of the scan change nothing that resolving looks at
    have hnoted : store.Noted scanned.store := (Store.noted_note _ _).trans hnoted
    rw [resolve, index_ofStore]
    dsimp only
    rw [hscanned]
    cases result with
    | error error =>
      refine ⟨scanned, ?_, hnoted, hknown⟩
      rw [instantiations, hsurvey]
      rfl
    | ok found =>
      dsimp only
      rw [hcancellation, hgoes, instantiations_of_survey hsurvey]
      exact ⟨_, rfl, hnoted.trans (Store.noted_report _ _), hknown⟩

/-- Types are added with the index that is known. -/
theorem addTypes_of_known {s : Session} {known : Index} {path : Path} {handle : Nat} {added : Store}
    (hknown : s.knownIndex = some known) (hadd : s.store.add path = (.ok handle, added)) (group : String)
    (items : List Instantiation) : s.addTypes path group items
      = ((added.synthesize handle (some known) group items).1,
          { s with store := (added.synthesize handle (some known) group items).2 }) := by
  have hindex : index { s with store := added } = (known, { s with store := added }) := by
    rw [index]
    dsimp only
    rw [hknown]
  rw [addTypes, addModule, hadd]
  dsimp only
  rw [hindex]

end Session

/-! ## One run -/

namespace Request

variable {r : Request} {files : FileTree} {loaded : Store} {s s' : Session}

theorem run_of_steps {refs : List TypeRef} {synthesized : Option TypeDef}
    (hload : r.load (r.store files) = (.ok (), loaded))
    (hresolve : (Session.ofStore r.analysis loaded).resolve = (.ok refs, s))
    (hadd : r.addToTarget s refs = (.ok synthesized, s')) :
    r.run files = (.ok ⟨refs, synthesized, s'.store.diagnostics⟩, s'.store.close) := by
  rw [run, hload]
  dsimp only
  rw [analyse, hresolve]
  dsimp only
  rw [hadd]
  rfl

theorem exists_steps_of_run {out : Outcome} {store : Store} (h : r.run files = (.ok out, store)) :
    ∃ loaded s s', r.load (r.store files) = (.ok (), loaded) ∧
      (Session.ofStore r.analysis loaded).resolve = (.ok out.instantiations, s) ∧
      r.addToTarget s out.instantiations = (.ok out.synthesized, s') ∧ store = s'.store.close := by
  unfold run at h
  split at h
  · exact nomatch (Prod.mk.inj h).1
  · rename_i loaded hload
    unfold analyse at h
    cases hresolve : (Session.ofStore r.analysis loaded).resolve with
    | mk resolved s =>
      rw [hresolve] at h
      cases resolved with
      | error error => exact nomatch (Prod.mk.inj h).1
      | ok refs =>
        cases hadd : r.addToTarget s refs with
        | mk synthesized s' =>
          dsimp only at h
          rw [hadd] at h
          cases synthesized with
          | error error => exact nomatch (Prod.mk.inj h).1
          | ok synthesized =>
            obtain ⟨hout, rfl⟩ := Prod.mk.inj h
            obtain rfl := Except.ok.inj hout
            exact ⟨loaded, s, s', hload, hresolve, hadd, rfl⟩

/-- What was loaded is loaded again. -/
theorem exists_loaded {files' : FileTree} (hload : r.load (r.store files) = (.ok (), loaded))
    (hfiles : files.LoadsAs files') : ∃ loaded', r.load (r.store files') = (.ok (), loaded') ∧
      Store.Parallels files files' loaded loaded' := by
  have hfollows := r.follows_load (r.parallels_store hfiles)
  rw [hload] at hfollows
  exact hfollows.of_ok

theorem addToTarget_of_isEmpty {path : Path} (htarget : r.target = some path) :
    r.addToTarget s [] = (.ok none, { s with store := s.store.note [.nothingToAdd path] }) := by
  rw [addToTarget, htarget]
  rfl

theorem addToTarget_of_ne_nil {path : Path} {refs : List TypeRef} (htarget : r.target = some path) (hrefs : refs ≠ []) :
    r.addToTarget s refs = ((s.addTypes path r.group (refs.map .ref)).1.map some,
      (s.addTypes path r.group (refs.map .ref)).2) := by
  rw [addToTarget, htarget]
  dsimp only
  rw [if_neg (by simpa using hrefs)]

end Request

/-! ## Adding the group again -/

/-- A module to which a group of closed types can be added for good: it has the suffix of modules and comes back
from its files, and nobody uses the names of the group. -/
structure FileTree.Groupable (files : FileTree) (path : Path) (group : String) : Prop where
  suffix : path.suffix = Path.moduleSuffix
  name : Spelling.isName group = true
  avoids : ∀ place m, files.readModule place = .ok m → m.Avoids group
  survives : ∀ m, files.readModule path.resolve = .ok m → m.Survives
  plain : ∀ m, files.readModule path.resolve = .ok m → m.PlainBodies

namespace Regrouped

variable {files files' : FileTree} {path companion : Path} {group : String} {refs : List TypeRef}
  {items : List Instantiation} {known : Index} {type : TypeDef}

/-- The files are regrouped when a group is written into a module. -/
theorem exists_of_synthesize {m after : Module} {written : Path} (hfiles : files.Groupable path group)
    (hread : files.readModule path.resolve = .ok m) (hitems : ∀ ref, .ref ref ∈ items → ref.toArg.Grammatical)
    (hsynth : m.synthesize (some known) group items = .ok (type, after))
    (hwrite : after.write true files = (files', .ok written)) :
    ∃ companion refs, closedRefs (some known) items = .ok refs ∧ type = (groupTypes m.name group refs).1 ∧
      Regrouped files files' path.resolve companion m group refs := by
  obtain ⟨refs, hrefs, htype, hafter⟩ := Module.exists_refs_of_synthesize hsynth
  have houtside : m.outside group = m := (hfiles.avoids _ _ hread).outside_eq
  have hstorable : after.Storable := by
    refine Module.storable_synthesize hsynth hfiles.name hitems (FileTree.storable_of_readModule hread ?_)
    rw [houtside]
    exact hfiles.survives m hread
  rw [houtside] at hafter
  obtain rfl : after = m.withGroup group refs := hafter
  have hplace := FileTree.path_of_readModule hread
  have hpath : (m.withGroup group refs).path = some path.resolve := hplace
  obtain ⟨companion, -, hcompanion, -⟩ := FileTree.exists_symbols_of_readModule hread
  obtain ⟨rfl, -⟩ := (Module.write_eq_ok_iff hpath).mp hwrite
  refine ⟨companion, refs, hrefs, htype, Path.resolve_resolve path, ?_, hfiles.avoids, ?_⟩
  · exact ⟨Path.suffix_resolve hfiles.suffix, hcompanion, hread, hstorable, hpath, hwrite⟩
  · exact congrArg (fun types => { m with types }) ((Module.map_asWritten_eq_iff m).mpr (hfiles.plain m hread))

/-- **The group is made again** in a store that was loaded again, and it is written as it stands there. -/
theorem synthesize_again {before : Module} (h : Regrouped files files' path companion before group refs)
    {s s' : Store} (hs : Store.Parallels files files' s s') {handle : Nat} (hhandle : s.handleOf? path = some handle)
    (hfull : s.full = false) (hgroup : Spelling.isName group = true) (hclosed : closedRefs (some known) items = .ok refs) :
    ∃ again, s'.synthesize handle (some known) group items = (.ok (groupTypes before.name group refs).1, again) ∧
      again.files = files' := by
  obtain ⟨m, m', hread⟩ := hs.exists_read_of_handleOf? hhandle
  obtain rfl := Except.ok.inj (hread.read'.symm.trans h.readModule)
  have hsynth := @Module.synthesize_of_closedRefs ((before.withGroup group refs).asStored path) _ _ _ _ hgroup hclosed
  have hwrite : ((((before.withGroup group refs).asStored path).outside group).addTypes
      (newTypes before.name group refs)).write true files' = (files', .ok path) :=
    h.write_again rfl rfl rfl (by rw [Module.addTypes, h.outside_stored]) rfl
  rw [← hs.files'] at hwrite
  exact ⟨_, Store.synthesize_of_ok hread.held' hsynth (hs.full.trans hfull) hwrite, hs.files'⟩

end Regrouped

namespace Session

variable {files : FileTree} {path : Path} {group : String} {items : List Instantiation} {known : Index}
  {type : TypeDef} {s s' : Session}

/-- **Types that were added regroup the files.** What they were made of is known, and so is where they went. -/
theorem regrouped_of_addTypes (hfiles : files.Groupable path group) (hs : Store.Parallels files files s.store s.store)
    (hknown : s.knownIndex = some known) (hitems : ∀ ref, .ref ref ∈ items → ref.toArg.Grammatical)
    (h : s.addTypes path group items = (.ok type, s')) :
    ∃ (handle : Nat) (added : Store) (companion : Path) (before : Module) (refs : List TypeRef),
      s.store.add path = (.ok handle, added) ∧ added.handleOf? path.resolve = some handle ∧ added.full = false ∧
        closedRefs (some known) items = .ok refs ∧ type = (groupTypes before.name group refs).1 ∧
          Regrouped files s'.store.files path.resolve companion before group refs := by
  obtain ⟨handle, added, -, -, hadd, -⟩ := addTypes_eq_ok h
  obtain ⟨-, hhandle, -⟩ := Store.add_eq_ok hadd
  rw [addTypes_of_known hknown hadd] at h
  obtain ⟨htype, rfl⟩ := Prod.mk.inj h
  have hfollows := hs.add path
  rw [hadd] at hfollows
  obtain ⟨_, hsame, hadded⟩ := hfollows.of_ok
  obtain rfl := (Prod.mk.inj hsame).2
  obtain ⟨m, m', hread⟩ := hadded.exists_read_of_handleOf? hhandle
  obtain ⟨hfull, after, files', written, hsynth, hwrite, hstore⟩ :=
    Store.synthesize_eq_ok hread.held (Prod.ext htype rfl)
  rw [hadded.files] at hwrite
  obtain ⟨companion, refs, hrefs, hgroup, hregrouped⟩ :=
    Regrouped.exists_of_synthesize hfiles hread.read hitems hsynth hwrite
  have hfiles' : (added.synthesize handle (some known) group items).2.files = files' := congrArg Store.files hstore
  exact ⟨handle, added, companion, m, refs, hadd, hhandle, hfull, hrefs, hgroup, hfiles' ▸ hregrouped⟩

end Session

/-! ## The second run -/

namespace Request

variable {r : Request} {files : FileTree} {path : Path} {out : Outcome} {store : Store}

/--
**A request can be run again.**

Let a request name a target to which its group can be added for good, and let it not be cancelled. If it
succeeds, then it succeeds again on the files that it left. The second run answers the same instantiations
and the same group, or none again, and leaves every file as it is.
-/
theorem run_again (htarget : r.target = some path) (hfiles : files.Groupable path r.group)
    (hnever : r.analysis.cancellation = .never) (h : r.run files = (.ok out, store)) :
    ∃ out' store', r.run store.files = (.ok out', store') ∧ out'.instantiations = out.instantiations ∧
      out'.synthesized = out.synthesized ∧ store'.files = store.files := by
  obtain ⟨loaded, s₀, s', hload, hresolve, hstep, rfl⟩ := exists_steps_of_run h
  obtain ⟨refs, synthesized, diagnostics⟩ := out
  dsimp only at hresolve hstep ⊢
  obtain ⟨s, hresolved, hnoted, hknown⟩ := Session.resolve_ofStore r.analysis loaded hnever
  obtain ⟨hrefs, rfl⟩ := Prod.mk.inj (hresolved.symm.trans hresolve)
  obtain ⟨_, hsame, hself⟩ := exists_loaded hload (.refl files)
  obtain rfl := (Prod.mk.inj (hload.symm.trans hsame)).2
  rw [Store.files_close]
  by_cases hnone : refs = []
  · -- nothing is added, and nothing is written
    subst hnone
    rw [addToTarget_of_isEmpty htarget] at hstep
    obtain ⟨-, rfl⟩ := Prod.mk.inj hstep
    have hkept : (s.store.note [.nothingToAdd path]).files = files := hnoted.files.trans hself.files
    exact ⟨_, _, (congrArg r.run hkept).trans h, rfl, rfl, Store.files_close _⟩
  · rw [addToTarget_of_ne_nil htarget hnone] at hstep
    obtain ⟨hresult, rfl⟩ := Prod.mk.inj hstep
    obtain ⟨type, htype, rfl⟩ := map_eq_ok hresult
    have hitems : ∀ ref, .ref ref ∈ refs.map Instantiation.ref → ref.toArg.Grammatical := by
      intro ref href
      obtain ⟨found, hfound, heq⟩ := List.mem_map.mp href
      exact Instantiation.ref.inj heq ▸ grammatical_of_instantiations hrefs found hfound
    obtain ⟨handle, added, companion, before, closed, hadd, hhandle, hfull, hclosed, rfl, hregrouped⟩ :=
      Session.regrouped_of_addTypes hfiles (hself.of_noted hnoted hnoted) hknown hitems (Prod.ext htype rfl)
    generalize (s.addTypes path r.group (refs.map .ref)).2.store.files = files' at hregrouped ⊢
    -- the second run loads and resolves the same, and puts the group where it is
    obtain ⟨loaded', hload', hloaded⟩ := exists_loaded hload hregrouped.loadsAs
    obtain ⟨t, hresolved', hnoted', hknown'⟩ := Session.resolve_ofStore r.analysis loaded' hnever
    rw [← instantiations_of_survey_eq (hregrouped.survey_eq hloaded r.analysis.marker), hrefs] at hresolved'
    have hfollows := (hloaded.of_noted hnoted hnoted').add path
    rw [hadd] at hfollows
    obtain ⟨added', hadd', hadded⟩ := hfollows.of_ok
    obtain ⟨again, hagain, hkept⟩ := hregrouped.synthesize_again hadded hhandle hfull hfiles.name
      (hregrouped.closedRefs_eq hloaded hclosed)
    have hstep' : r.addToTarget t refs
        = (.ok (some (groupTypes before.name r.group closed).1), { t with store := again }) := by
      rw [addToTarget_of_ne_nil htarget hnone, Session.addTypes_of_known hknown' hadd', hagain]
      rfl
    exact ⟨_, _, run_of_steps hload' hresolved' hstep', rfl, rfl, (Store.files_close _).trans hkept⟩

end Request

/-! A module with a job that is closed by a call. It is analysed and the target at once. -/

namespace Rerunning

open Workshop (own made work passing jobFor)

def path : Path := ⟨["Demo.jmod"], false⟩

def main : Workshop.Worker where
  name := "Main"
  tasks := [.call "Work" "Run" "Int"]

/-- The `Main` of `Start` calls the `Run` of `Work`, which makes a job. -/
def demo : Module :=
  { Workshop.shop "Demo" [("Work", [Workshop.run]), ("Start", [main])] with path := some path }

def files : FileTree := ⟨[(path.parts, .file demo.document.toUTF8)]⟩

def request : Request where
  paths := [path]
  target := some path
  group := "Jobs"
  analysis := { marker := "job" }

/-! The file -/

theorem forall_demo {p : TypeDef → Prop} (hruns : p (Workshop.runs "Demo")) (hjob : p (Workshop.job "Demo"))
    (hwork : p (Workshop.declaring "Demo" "Work" [Workshop.run]))
    (hstart : p (Workshop.declaring "Demo" "Start" [main])) : ∀ type ∈ demo.types, p type :=
  Workshop.forall_shop hruns hjob (List.forall_mem_cons.mpr ⟨hwork, List.forall_mem_singleton.mpr hstart⟩)

theorem spelled_demo : demo.Spelled := Workshop.spelled _ _

theorem plain_demo : ∀ type ∈ demo.types, type.PlainBodies := (Workshop.writable _ _).bodies

theorem legible_demo : demo.LegibleBodies := Module.legibleBodies_of_plainBodies plain_demo

theorem noReturn_demo : ¬ demo.toForm.Holds '\r' := by
  have hspell : (⟨"Runs", []⟩ : TypeRef).spell = "Runs" := rfl
  simp [demo, Workshop.shop, Workshop.runs, Workshop.job, Workshop.declaring, Workshop.Worker.method, Workshop.Task.form,
    Workshop.run, main, Module.toForm, TypeDef.toForm, Method.toForm, textClause, textClauseIfAny, Form.Holds,
    Form.HoldsAny, hspell]

theorem readModule_path : files.readModule path = .ok demo := by
  have hcontains : files.contains ⟨["Demo.jsym"], false⟩ = .ok false := rfl
  have hbytes : files.readBytes path = .ok demo.document.toUTF8 := rfl
  have hreturn : '\r' ∉ demo.document.toList := fun hmem => noReturn_demo (Form.holds_of_return_mem_document hmem)
  exact FileTree.readModule_of_alone rfl hcontains hbytes hreturn
    (Module.ofDocument_document_asWritten spelled_demo legible_demo (some path)) rfl

/-- Every module that can be read is the one. -/
theorem types_of_readModule {place : Path} {m : Module} (h : files.readModule place = .ok m) : m.types = demo.types := by
  obtain ⟨text, declared, symbols, htext, hdocument, -, rfl⟩ := FileTree.readModule_eq_ok_iff.mp h
  obtain ⟨bytes, -, hbytes, -, -⟩ := FileTree.readText_eq_ok_iff.mp htext
  obtain ⟨hlocate, hentry⟩ := FileTree.readBytes_eq_ok_iff.mp hbytes
  have hplace : place.resolve.parts = path.parts := by
    have hmem := FileTree.mem_entries_of_readBytes hbytes
    exact (Prod.mk.inj (List.mem_singleton.mp hmem)).1
  rw [hplace] at hlocate
  obtain ⟨text', declared', symbols', htext', hdocument', -, hdemo⟩ := FileTree.readModule_eq_ok_iff.mp readModule_path
  obtain rfl := Except.ok.inj (htext.symm.trans (FileTree.readText_of_locate rfl hlocate htext'))
  obtain rfl := Except.ok.inj (hdocument.symm.trans (Module.ofDocument_path hdocument'))
  rw [hdemo]

theorem namesInBodies_of_decoded {type : String} {worker : Workshop.Worker} {known : String → Prop}
    (instruction : Instruction) (hdecoded : Scanner.decodeBody (Workshop.declaring "Demo" type [worker])
      (worker.method "Demo" type) (worker.tasks.map Workshop.Task.form) = .ok [instruction])
    (hnames : ∀ ref ∈ Scanner.candidates instruction, known ref.name) :
    Scanner.NamesInBodies known (Workshop.declaring "Demo" type [worker]) := by
  refine List.forall_mem_singleton.mpr ?_
  rintro body ⟨rfl⟩ instructions hinstructions
  rw [← Except.ok.inj (hdecoded.symm.trans hinstructions)]
  exact List.forall_mem_singleton.mpr hnames

theorem avoids_demo : demo.Avoids "Jobs" where
  declared := forall_demo rfl rfl rfl rfl
  supertypes := by
    refine forall_demo nofun ?_ nofun nofun
    exact List.forall_mem_singleton.mpr rfl
  bodies := by
    refine forall_demo nofun nofun ?_ ?_
    · exact namesInBodies_of_decoded ⟨"newobj", ⟨"Job", [.param (own (work "Run"))]⟩, ".ctor", [], none⟩ (by cbv)
        (List.forall_mem_singleton.mpr rfl)
    · exact namesInBodies_of_decoded ⟨"call", ⟨"Work", []⟩, "Run", [.named "Int" []], none⟩ (by cbv)
        (List.forall_mem_cons.mpr ⟨rfl, List.forall_mem_singleton.mpr rfl⟩)

theorem groupable : files.Groupable path request.group where
  suffix := by decide
  name := by decide
  avoids place m h := avoids_demo.of_types (types_of_readModule h)
  survives m h := by
    obtain rfl := Except.ok.inj (readModule_path.symm.trans h)
    refine ⟨?_, legible_demo, noReturn_demo, ?_⟩
    · refine forall_demo nofun ?_ nofun nofun
      exact List.forall_mem_singleton.mpr nofun
    · have hsymbols : demo.symbols = [] := rfl
      rw [hsymbols, Symbols.toForm, Symbols.sorted, List.mergeSort_nil]
      simp [Form.Holds, Form.HoldsAny]
  plain m h := by
    obtain rfl := Except.ok.inj (readModule_path.symm.trans h)
    exact fun type htype method hmethod body hbody form hform =>
      (plain_demo type htype method hmethod body hbody form hform).2

/-! The run -/

def closed : TypeRef := jobFor (.named "Int" [])

def call : CallReference := made (work "Run")

def site : CallSite := passing ⟨"Start", "Main", []⟩ (work "Run") (.named "Int" [])

theorem survey_demo : survey "job" [demo] = .ok { calls := [call], callSites := [site] } := by cbv

theorem comesTo_call : Walk.ComesTo (.ofSites [site]) call [closed] := ⟨2, by decide, by decide⟩

theorem instantiations_demo : instantiations "job" [demo] = .ok [closed] := by
  rw [instantiations_of_single_targets survey_demo (.cons comesTo_call .nil)]
  exact congrArg Except.ok (Resolver.sortBySpelling_singleton closed)

theorem closedRefs_demo : closedRefs (some (Index.ofModules [demo])) [.ref closed] = .ok [closed] :=
  Synthesis.closedRefs_singleton (by cbv)

def group : TypeDef := (groupTypes "Demo" "Jobs" [closed]).1

theorem synthesize_demo : demo.synthesize (some (Index.ofModules [demo])) "Jobs" [.ref closed]
    = .ok (group, demo.withGroup "Jobs" [closed]) := by
  have hsynth := @Module.synthesize_of_closedRefs demo _ _ _ _ (show Spelling.isName "Jobs" = true by decide)
    closedRefs_demo
  rwa [avoids_demo.outside_eq] at hsynth

theorem write_demo : ∃ files', (demo.withGroup "Jobs" [closed]).write true files = (files', .ok path) := by
  rw [Module.write]
  exact ⟨_, rfl⟩

theorem add_of_readModule {tree : FileTree} {m : Module} (h : tree.readModule path = .ok m) :
    (request.store tree).add path = (.ok 0, (request.store tree).hold path m) := by
  have hread : (request.store tree).files.readModule path = .ok m := h
  show (request.store tree).openAt path = _
  rw [Store.openAt, hread]
  rfl

/-- The request loads the module at its path and nothing else. -/
theorem load_of_readModule {tree : FileTree} {m : Module} (h : tree.readModule path = .ok m) :
    request.load (request.store tree) = (.ok (), (request.store tree).hold path m) := by
  have hpaths : Request.loadPaths (request.store tree) request.paths = (.ok (), (request.store tree).hold path m) := by
    show Request.loadPaths (request.store tree) [path] = _
    rw [Request.loadPaths, add_of_readModule h]
    rfl
  rw [Request.load, hpaths]
  rfl

def loaded : Store := (request.store files).hold path demo

theorem exists_run : ∃ out store, request.run files = (.ok out, store) ∧ out.instantiations = [closed] ∧
    out.synthesized = some group := by
  obtain ⟨s, hresolved, ⟨diagnostics, log, hstore⟩, hknown⟩ := Session.resolve_ofStore request.analysis loaded rfl
  have hresolve : (Session.ofStore request.analysis loaded).resolve = (.ok [closed], s) :=
    hresolved.trans (congrArg (·, s) instantiations_demo)
  have hknown : s.knownIndex = some (Index.ofModules [demo]) := hknown
  have hadd : s.store.add path = (.ok 0, s.store) := by
    rw [hstore]
    rfl
  obtain ⟨files', hwrite⟩ := write_demo
  have hmade : s.store.synthesize 0 (some (Index.ofModules [demo])) request.group [.ref closed]
      = (.ok group, { s.store.replace 0 (demo.withGroup "Jobs" [closed]) with files := files' }) := by
    rw [hstore]
    exact Store.synthesize_of_ok rfl synthesize_demo rfl hwrite
  have hstep : request.addToTarget s [closed] = (.ok (some group), { s with
      store := { s.store.replace 0 (demo.withGroup "Jobs" [closed]) with files := files' } }) := by
    have hitems : [closed].map Instantiation.ref = [.ref closed] := rfl
    rw [Request.addToTarget_of_ne_nil rfl (List.cons_ne_nil _ _), Session.addTypes_of_known hknown hadd, hitems, hmade]
    rfl
  exact ⟨_, _, Request.run_of_steps (load_of_readModule readModule_path) hresolve hstep, rfl, rfl⟩

/-- The group is added once: the second run finds the job again, and no job of the group. -/
theorem run_again_demo : request.target = some path ∧ files.Groupable path request.group ∧
    request.analysis.cancellation = .never ∧ ∃ out store out' store', request.run files = (.ok out, store) ∧
      out.instantiations = [closed] ∧ out.synthesized = some group ∧ request.run store.files = (.ok out', store') ∧
        out'.instantiations = [closed] ∧ out'.synthesized = some group ∧ store'.files = store.files := by
  obtain ⟨out, store, hrun, hrefs, hgroup⟩ := exists_run
  obtain ⟨out', store', hagain, hrefs', hgroup', hfiles⟩ := Request.run_again rfl groupable rfl hrun
  exact ⟨rfl, groupable, rfl, out, store, out', store', hrun, hrefs, hgroup, hagain, hrefs'.trans hrefs,
    hgroup'.trans hgroup, hfiles⟩

end Rerunning

end JobClosure
