import JobClosure.Proofs.Cancellation.Request
import JobClosure.Proofs.Instantiation.Findings
import JobClosure.Proofs.Rerun

/-!
# Answers are snapshots

A session makes its index once and its scan once, each when it is first needed. Between two questions types may be added
to any module: the store then holds more modules, and the types of modules that are indexed are replaced. What a session
answers does not depend on that, since all of it comes from a **snapshot**, the index and the findings in the types that
the index holds (`Session.Sees`).

The scan may be made long after the index, and then it goes over all modules that are held by that time. But it looks
their types up in the index, under their identities. A module that was added later has no types there, or, should it
share an identity with another module, types that were scanned already. Neither changes the findings, so a snapshot is
the same whenever the scan is made (`Session.Sees.withStore`).
-/

namespace JobClosure

/-! ## Held modules in an index -/

namespace Store

/-- The identities of held modules are the texts of their places. -/
theorem Balanced.identities {s : Store} (h : s.Balanced) :
    s.modules.map Module.identity = s.places.map Path.text := by
  have hentry : ∀ entry ∈ s.held, (s.module? entry.2).map Module.identity = some entry.1.text := by
    intro entry hentry
    obtain ⟨m, hm, -, hpath, hplace⟩ := h.held entry hentry
    rw [hm, Option.map_some, Module.identity, hpath]
    simp only [hplace]
  calc s.modules.map Module.identity
      = s.held.filterMap fun entry => (s.module? entry.2).map Module.identity := by
        rw [modules, handles, List.map_filterMap, List.filterMap_map]
        rfl
    _ = s.held.filterMap (some ∘ fun entry => entry.1.text) := List.filterMap_congr hentry
    _ = s.places.map Path.text := by simp [places]

/-- Identities of modules stay where they are when more modules are held, whatever happens to the modules. -/
theorem identities_prefix {s s' : Store} (h : s.Balanced) (h' : s'.Balanced) (hheld : s.held <+: s'.held) :
    s.modules.map Module.identity <+: s'.modules.map Module.identity := by
  rw [h.identities, h'.identities]
  exact (hheld.map Prod.fst).map Path.text

theorem held_synthesize (s : Store) (handle : Nat) (index : Option Index) (group : String)
    (items : List Instantiation) : (s.synthesize handle index group items).2.held = s.held := by
  unfold synthesize
  split
  · rfl
  · rfl

end Store

namespace Index

/-- The types that an index holds under an identity. -/
def typesUnder (ix : Index) (identity : String) : List TypeDef := (ix.modules.lookup identity).getD []

theorem flatMap_typesOf (ix : Index) (modules : List Module) :
    modules.flatMap ix.typesOf = (modules.map Module.identity).flatMap ix.typesUnder := by
  rw [List.flatMap_map]
  rfl

/-- An identity under which there are types belongs to an entry. -/
theorem exists_mem_modules_of_mem_typesUnder {ix : Index} {identity : String} {type : TypeDef}
    (h : type ∈ ix.typesUnder identity) : ∃ entry ∈ ix.modules, entry.1 = identity := by
  unfold typesUnder at h
  cases hlookup : ix.modules.lookup identity with
  | none => simp [hlookup] at h
  | some types =>
    obtain ⟨before, after, hsplit, -⟩ := List.lookup_eq_some_iff.mp hlookup
    exact ⟨(identity, types), by simp [hsplit], rfl⟩

end Index

/-- An index, and the findings in the types that it holds. -/
structure Snapshot where
  index : Index
  findings : Except Error Findings

namespace Session

/-! ## Questions -/

/-- What a session can be asked. -/
inductive Question
  | jobCalls
  | genericCalls
  | methods
  | definition (identity : Identity) (name : String) (parameters : Option (List String))
  | resolve

/-- What a session answers. -/
inductive Answer
  | jobCalls (calls : List CallReference)
  | genericCalls (table : List (MethodId × List CallSite))
  | methods (table : List Method)
  | definition (method : Method)
  | resolve (refs : List TypeRef)

def ask (s : Session) : Question → Except Error Answer × Session
  | .jobCalls => (s.jobCalls.1.map .jobCalls, s.jobCalls.2)
  | .genericCalls => (s.genericCalls.1.map .genericCalls, s.genericCalls.2)
  | .methods => (.ok (.methods s.methods.1), s.methods.2)
  | .definition identity name parameters =>
    ((s.definition identity name parameters).1.map .definition, (s.definition identity name parameters).2)
  | .resolve => (s.resolve.1.map .resolve, s.resolve.2)

/-- What can be done with a session that stays open. -/
inductive Action
  | ask (question : Question)
  /-- Add a group of closed types to the module at a path. -/
  | addTypes (path : Path) (group : String) (items : List Instantiation)
  | addModule (path : Path)

def Action.question? : Action → Option Question
  | .ask question => some question
  | _ => none

/-- An action with what it meets: the files, and whether there is space left. -/
structure Event where
  files : FileTree
  full : Bool
  action : Action

/-- Carries an action out. A question is noted with its answer. Whether something could be added is not. -/
def perform (s : Session) : Action → List (Question × Except Error Answer) × Session
  | .ask question => ([(question, (s.ask question).1)], (s.ask question).2)
  | .addTypes path group items => ([], (s.addTypes path group items).2)
  | .addModule path => ([], (s.addModule path).2)

/-- The session as an event finds it. -/
def meet (s : Session) (event : Event) : Session :=
  { s with store := { s.store with files := event.files, full := event.full } }

/-- A run: the questions that were asked in its course with their answers, and the session after it. -/
def runEvents (s : Session) : List Event → List (Question × Except Error Answer) × Session
  | [] => ([], s)
  | event :: rest =>
    let (answered, s) := (s.meet event).perform event.action
    let (more, s) := s.runEvents rest
    (answered ++ more, s)

end Session

/-- What a snapshot says. -/
def Snapshot.answer (view : Snapshot) : Session.Question → Except Error Session.Answer
  | .jobCalls => view.findings.map fun found => .jobCalls found.calls
  | .genericCalls => view.findings.map fun found => .genericCalls (found.graph.lookupTable true)
  | .methods => .ok (.methods view.index.methodTable)
  | .definition identity name parameters =>
    ((view.index.findMethod identity name parameters none).mapError .notFound).map .definition
  | .resolve => do
    let found ← view.findings
    (Resolver.resolve ⟨view.index, found.graph⟩ .never found.calls).result.map .resolve

namespace Session

/-! ## Sessions with an index -/

/-- A session that cannot be cancelled has made an index, and a snapshot says what there is to find. -/
structure Sees (s : Session) (view : Snapshot) : Prop where
  balanced : s.store.Balanced
  never : s.cancellation = .never
  known : s.knownIndex = some view.index
  /-- Whatever is indexed is held. -/
  covered : ∀ entry ∈ view.index.modules, entry.1 ∈ s.modules.map Module.identity
  /-- What a scan of the held modules finds, -/
  findings : Scanner.findings ⟨view.index, s.marker⟩ (s.modules.flatMap view.index.typesOf) = view.findings
  /-- and what the scan found if it was made. -/
  kept : ∀ found, s.knownScan = some found → view.findings = .ok found.findings

variable {s : Session} {view : Snapshot}

theorem index_of_unknown (h : s.knownIndex = none) : s.index = (Index.ofModules s.modules,
    { s with knownIndex := some (Index.ofModules s.modules), store := s.store.note (Index.build s.modules).2 }) := by
  rw [index, h]
  rfl

theorem index_of_known {known : Index} (h : s.knownIndex = some known) : s.index = (known, s) := by rw [index, h]

theorem Sees.index_eq (h : s.Sees view) : s.index = (view.index, s) := index_of_known h.known

/-- **More modules change nothing.** Their types are not in the index, or they were scanned before. -/
theorem Sees.withStore (h : s.Sees view) {store : Store} (hbalanced : store.Balanced)
    (hheld : s.store.held <+: store.held) : Sees { s with store := store } view := by
  obtain ⟨more, hmore⟩ : s.modules.map Module.identity <+: store.modules.map Module.identity :=
    Store.identities_prefix h.balanced hbalanced hheld
  refine ⟨hbalanced, h.never, h.known, fun entry hentry => ?_, ?_, h.kept⟩
  · show entry.1 ∈ store.modules.map Module.identity
    rw [← hmore]
    exact List.mem_append_left _ (h.covered entry hentry)
  · have hagain : ∀ type ∈ more.flatMap view.index.typesUnder,
        type ∈ (s.modules.map Module.identity).flatMap view.index.typesUnder := by
      -- an identity under which there are types belongs to an entry, and all entries are of modules held before
      intro type htype
      obtain ⟨identity, -, htype⟩ := List.mem_flatMap.mp htype
      obtain ⟨entry, hentry, rfl⟩ := Index.exists_mem_modules_of_mem_typesUnder htype
      exact List.mem_flatMap.mpr ⟨entry.1, h.covered entry hentry, htype⟩
    calc Scanner.findings ⟨view.index, s.marker⟩ (store.modules.flatMap view.index.typesOf)
        = Scanner.findings ⟨view.index, s.marker⟩ ((s.modules.map Module.identity).flatMap view.index.typesUnder
            ++ more.flatMap view.index.typesUnder) := by
          rw [Index.flatMap_typesOf, ← List.flatMap_append, hmore]
      _ = Scanner.findings ⟨view.index, s.marker⟩ (s.modules.flatMap view.index.typesOf) := by
          rw [Scanner.findings_append hagain, Index.flatMap_typesOf]
      _ = view.findings := h.findings

/-- **A scan** finds what the snapshot says, whenever it is made. -/
theorem Sees.scan (h : s.Sees view) :
    s.scan.1.map ScanResult.findings = view.findings ∧ s.scan.2.Sees view := by
  cases hscan : s.knownScan with
  | some found =>
    have heq : s.scan = (.ok found, s) := by rw [Session.scan, hscan]
    rw [heq]
    exact ⟨(h.kept found hscan).symm, h⟩
  | none =>
    -- the scan goes over the modules that are held by now, with an index that may be older
    have hfindings : (Scanner.scanModules ⟨view.index, s.marker⟩ {} s.modules).1.map ScanResult.findings
        = view.findings := by
      rw [Scanner.findings_scanModules]
      exact h.findings
    have hnever := Scanner.cancellation_scanModules ⟨view.index, s.marker⟩ s.modules
    rw [scan_of_none s hscan, h.index_eq]
    dsimp only
    rw [h.never]
    generalize Scanner.scanModules ⟨view.index, s.marker⟩ {} s.modules = out at hfindings hnever ⊢
    obtain ⟨error | found, state⟩ := out
    · exact ⟨hfindings, h.balanced, hnever, h.known, h.covered, h.findings, h.kept⟩
    · -- this is where findings are first kept
      have hkept : ∀ known, some found = some known → view.findings = .ok known.findings := by
        intro known hknown
        rw [← Option.some.inj hknown]
        exact hfindings.symm
      exact ⟨hfindings, (Store.keeps_report _ _).balanced h.balanced, hnever, h.known, h.covered, h.findings, hkept⟩

theorem Sees.resolve (h : s.Sees view) :
    s.resolve.1 = (do
      let found ← view.findings
      (Resolver.resolve ⟨view.index, found.graph⟩ .never found.calls).result) ∧ s.resolve.2.Sees view := by
  obtain ⟨hfindings, hscanned⟩ := h.scan
  rw [resolve_eq, h.index_eq]
  dsimp only
  generalize s.scan = out at hfindings hscanned ⊢
  obtain ⟨error | found, scanned⟩ := out
  · rw [← hfindings]
    exact ⟨rfl, hscanned⟩
  · have hnever := Resolver.cancellation_resolve ⟨view.index, found.graph⟩ found.calls
    dsimp only [onResult] at hscanned ⊢
    rw [← hfindings, hscanned.never]
    exact ⟨rfl, (Store.keeps_report _ _).balanced hscanned.balanced, hnever, hscanned.known, hscanned.covered,
      hscanned.findings, hscanned.kept⟩

/-- **A question** is answered as the snapshot says, and asking it changes nothing about that. -/
theorem Sees.ask (h : s.Sees view) (question : Question) :
    (s.ask question).1 = view.answer question ∧ (s.ask question).2.Sees view := by
  obtain ⟨hfindings, hscanned⟩ := h.scan
  -- two questions go to the index and leave the session as it is; the others go to the scan
  cases question with
  | jobCalls =>
    refine ⟨?_, hscanned⟩
    show (s.scan.1.map (·.calls)).map Answer.jobCalls = view.findings.map _
    rw [← hfindings]
    cases s.scan.1 <;> rfl
  | genericCalls =>
    refine ⟨?_, hscanned⟩
    show ((s.scan.1.map ScanResult.graph).map (·.lookupTable true)).map Answer.genericCalls = view.findings.map _
    rw [← hfindings]
    cases s.scan.1 <;> rfl
  | methods =>
    have hask : s.ask .methods = (.ok (.methods view.index.methodTable), s) := by
      rw [Session.ask, methods, h.index_eq]
    rw [hask]
    exact ⟨rfl, h⟩
  | definition identity name parameters =>
    have hask : s.ask (.definition identity name parameters)
        = (view.answer (.definition identity name parameters), s) := by
      rw [Session.ask, definition, h.index_eq]
      rfl
    rw [hask]
    exact ⟨rfl, h⟩
  | resolve =>
    obtain ⟨hresult, hresolved⟩ := h.resolve
    refine ⟨?_, hresolved⟩
    show s.resolve.1.map Answer.resolve = _
    rw [hresult, Snapshot.answer]
    cases view.findings <;> rfl

/-! ## Sessions without an index -/

/-- A session that cannot be cancelled and has not made its index yet. -/
structure Unindexed (s : Session) : Prop where
  balanced : s.store.Balanced
  never : s.cancellation = .never
  unknown : s.knownIndex = none
  unscanned : s.knownScan = none

/-- A session is opened without an index, whatever has happened to the store. -/
theorem unindexed_ofStore (files : FileTree) (searchPaths : List Path) (followReferences : Bool)
    (before : List Store.Event) {options : AnalysisOptions} (hnever : options.cancellation = .never) :
    (ofStore options ((Store.new files searchPaths followReferences).runEvents before).2).Unindexed where
  balanced := (Store.run_serves _ before).balanced (Store.balanced_new files searchPaths followReferences)
  never := hnever
  unknown := rfl
  unscanned := rfl

/-- The snapshot that a session takes when it makes its index. -/
def taken (s : Session) : Snapshot where
  index := Index.ofModules s.modules
  findings := Scanner.findings ⟨Index.ofModules s.modules, s.marker⟩
    (s.modules.flatMap (Index.ofModules s.modules).typesOf)

/-- **An index is made together with a snapshot**: what it holds is what a scan goes over. -/
theorem Unindexed.sees_index (h : s.Unindexed) : s.index.2.Sees s.taken := by
  rw [index_of_unknown h.unknown]
  refine ⟨(Store.keeps_note _ _).balanced h.balanced, h.never, rfl, fun entry hentry => ?_, rfl, ?_⟩
  · obtain hnone | ⟨m, hm, rfl⟩ := Index.mem_modules_foldl_addModule hentry
    · exact absurd hnone List.not_mem_nil
    · exact List.mem_map_of_mem hm
  · intro found hfound
    exact nomatch h.unscanned.symm.trans hfound

theorem index_index (s : Session) : s.index.2.index = s.index := by
  cases hknown : s.knownIndex with
  | none =>
    rw [index_of_unknown hknown]
    exact index_of_known rfl
  | some known =>
    rw [index_of_known hknown]
    exact index_of_known hknown

theorem scan_index (h : s.knownScan = none) : s.index.2.scan = s.scan := by
  have hscan : s.index.2.knownScan = none := by
    cases hknown : s.knownIndex with
    | none => rwa [index_of_unknown hknown]
    | some known => rwa [index_of_known hknown]
  rw [scan_of_none _ hscan, scan_of_none s h, index_index]

/-- **A question is answered after the index was made.** -/
theorem Unindexed.ask_index (h : s.Unindexed) (question : Question) : s.index.2.ask question = s.ask question := by
  have hscan := scan_index h.unscanned
  cases question with
  | jobCalls => rw [Session.ask, Session.ask, jobCalls, jobCalls, hscan]
  | genericCalls => rw [Session.ask, Session.ask, genericCalls, genericCalls, callGraph, callGraph, hscan]
  | methods => rw [Session.ask, Session.ask, methods, methods, index_index]
  | definition identity name parameters => rw [Session.ask, Session.ask, definition, definition, index_index]
  | resolve => rw [Session.ask, Session.ask, resolve_eq, resolve_eq, index_index]

/-! ## What is done to a session -/

/-- A session that cannot be cancelled: it has no index yet, or it answers from a snapshot. -/
def Steady (s : Session) : Prop := s.Unindexed ∨ ∃ view, s.Sees view

/-- A session after something was done, however it ended: it may have its index by now, and if it had one before then
it sees what it saw. -/
structure Upholds (s s' : Session) : Prop where
  unindexed : s.Unindexed → s'.Steady
  sees : ∀ {view}, s.Sees view → s'.Sees view

theorem Upholds.steady {s s' : Session} (h : s.Upholds s') (hs : s.Steady) : s'.Steady :=
  hs.elim h.unindexed fun ⟨view, hview⟩ => .inr ⟨view, h.sees hview⟩

theorem Upholds.refl (s : Session) : s.Upholds s := ⟨.inl, id⟩

theorem Upholds.trans {a b c : Session} (hab : a.Upholds b) (hbc : b.Upholds c) : a.Upholds c :=
  ⟨fun h => hbc.steady (hab.unindexed h), fun h => hbc.sees (hab.sees h)⟩

theorem upholds_withStore (s : Session) {store : Store} (hkeeps : s.store.Keeps store)
    (hheld : s.store.held <+: store.held) : s.Upholds { s with store := store } where
  unindexed h := .inl ⟨hkeeps.balanced h.balanced, h.never, h.unknown, h.unscanned⟩
  sees h := h.withStore (hkeeps.balanced h.balanced) hheld

theorem upholds_meet (s : Session) (event : Event) : s.Upholds (s.meet event) :=
  s.upholds_withStore (Store.SameBooks.keeps ⟨rfl, rfl, rfl, rfl⟩) (List.prefix_refl _)

theorem upholds_index (s : Session) : s.Upholds s.index.2 where
  unindexed h := .inr ⟨s.taken, h.sees_index⟩
  sees h := by rwa [h.index_eq]

theorem upholds_ask (s : Session) (question : Question) : s.Upholds (s.ask question).2 where
  unindexed h := by
    -- without an index one is made first, so what is asked is a session that has one
    rw [← h.ask_index]
    exact .inr ⟨s.taken, (h.sees_index.ask question).2⟩
  sees h := (h.ask question).2

theorem upholds_addModule (s : Session) (path : Path) : s.Upholds (s.addModule path).2 :=
  s.upholds_withStore (Store.serves_add s.store path).toKeeps (Store.extends_add s.store path).held

/-- **Adding types** replaces types of opened modules. The index holds those that it was made of. -/
theorem upholds_addTypes (s : Session) (path : Path) (group : String) (items : List Instantiation) :
    s.Upholds (s.addTypes path group items).2 := by
  have hadd := s.upholds_addModule path
  unfold addTypes
  split
  · rename_i error s' heq
    rwa [heq] at hadd
  · rename_i handle s' heq
    rw [heq] at hadd
    refine hadd.trans (s'.upholds_index.trans (upholds_withStore _ (Store.keeps_synthesize _ _ _ _ _) ?_))
    rw [Store.held_synthesize]

theorem upholds_perform (s : Session) (action : Action) : s.Upholds (s.perform action).2 := by
  cases action with
  | ask question => exact s.upholds_ask question
  | addTypes path group items => exact s.upholds_addTypes path group items
  | addModule path => exact s.upholds_addModule path

/-! ## Runs -/

theorem upholds_runEvents (s : Session) (events : List Event) : s.Upholds (s.runEvents events).2 := by
  induction events generalizing s with
  | nil => exact .refl s
  | cons event rest ih =>
    exact (s.upholds_meet event).trans (((s.meet event).upholds_perform event.action).trans (ih _))

theorem Sees.perform (h : s.Sees view) (action : Action) : (s.perform action).1
    = action.question?.toList.map fun question => (question, view.answer question) := by
  cases action with
  | ask question =>
    rw [Session.perform, (h.ask question).1]
    rfl
  | addTypes path group items => rfl
  | addModule path => rfl

/-- **In a run** every question is answered as the snapshot says. -/
theorem Sees.runEvents (h : s.Sees view) (events : List Event) : (s.runEvents events).1
    = (events.filterMap (·.action.question?)).map fun question => (question, view.answer question) := by
  induction events generalizing s with
  | nil => rfl
  | cons event rest ih =>
    -- the snapshot is still seen when the event is met, and again when its action was carried out
    have hmet := (s.upholds_meet event).sees h
    have hrest := ih (((s.meet event).upholds_perform event.action).sees hmet)
    show ((s.meet event).perform event.action).1 ++ (((s.meet event).perform event.action).2.runEvents rest).1 = _
    rw [hmet.perform, hrest, List.filterMap_cons]
    cases event.action.question? <;> rfl

/-- A session that has an index sees a snapshot. -/
theorem Steady.sees_of_known (h : s.Steady) (hknown : s.knownIndex ≠ none) : ∃ view, s.Sees view := by
  obtain h | hview := h
  · exact absurd h.unknown hknown
  · exact hview

/--
**Answers are snapshots.**

Let a session be opened without a cancellation about a store that anything has happened to, and let it make its index
in the course of a run. From then on it may be asked anything any number of times, while types are added to modules and
modules are added, with success or not, and whatever becomes of the files. Every question is answered as if it were the
first to be asked, with nothing added before it.
-/
theorem answers_are_snapshots (files : FileTree) (searchPaths : List Path) (followReferences : Bool)
    (before : List Store.Event) (options : AnalysisOptions) (hnever : options.cancellation = .never)
    (past : List Event) {s : Session}
    (hs : s = ((ofStore options ((Store.new files searchPaths followReferences).runEvents before).2).runEvents past).2)
    (hindexed : s.knownIndex ≠ none) (later : List Event) :
    (s.runEvents later).1
      = (later.filterMap (·.action.question?)).map fun question => (question, (s.ask question).1) := by
  have hstart := unindexed_ofStore files searchPaths followReferences before hnever
  have hsteady := (upholds_runEvents _ past).unindexed hstart
  rw [← hs] at hsteady
  obtain ⟨view, hview⟩ := hsteady.sees_of_known hindexed
  rw [hview.runEvents later]
  exact List.map_congr_left fun question _ => by rw [(hview.ask question).1]

end Session

/-! ## A job that is found before and after it is closed -/

namespace Observing

open Rerunning (path files demo loaded closed group)

/-- A new store loads the module. -/
def before : List Store.Event := [⟨files, false, .add path⟩]

/-- The index is made for the table of all methods. Nothing has been scanned. -/
def past : List Session.Event := [⟨files, false, .ask .methods⟩]

/-- The job is closed in the module that calls for it, and only then asked for. -/
def later : List Session.Event :=
  [⟨files, false, .addTypes path "Jobs" [.ref closed]⟩, ⟨files, false, .ask .resolve⟩]

/-- The session when it has its index. -/
def opened : Session := Session.indexed Rerunning.request.analysis loaded

-- The files stay variables here: nothing is evaluated that depends on their contents.
theorem load_of_readModule {tree : FileTree} {m : Module} (h : tree.readModule path = .ok m) :
    ((Store.new tree [] false).runEvents [⟨tree, false, .add path⟩]).2 = (Store.new tree [] false).hold path m := by
  have hadd : (Store.new tree [] false).add path = (.ok 0, (Store.new tree [] false).hold path m) :=
    Rerunning.add_of_readModule h
  show ((Store.new tree [] false).add path).2 = _
  rw [hadd]

theorem index_of_methods (options : AnalysisOptions) (tree : FileTree) (m : Module) :
    ((Session.ofStore options ((Store.new tree [] false).hold path m)).runEvents [⟨tree, false, .ask .methods⟩]).2
      = Session.indexed options ((Store.new tree [] false).hold path m) := rfl

theorem runEvents_before : ((Store.new files [] false).runEvents before).2 = loaded :=
  load_of_readModule Rerunning.readModule_path

theorem runEvents_past :
    ((Session.ofStore Rerunning.request.analysis ((Store.new files [] false).runEvents before).2).runEvents past).2
      = opened := by
  rw [runEvents_before]
  exact index_of_methods Rerunning.request.analysis files demo

theorem resolve_opened : (opened.ask .resolve).1 = .ok (.resolve [closed]) := by
  have hresolve : ((Session.ofStore Rerunning.request.analysis loaded).resolve).1 = .ok [closed] := by
    obtain ⟨s, hresolved, -⟩ := Session.resolve_ofStore Rerunning.request.analysis loaded rfl
    rw [hresolved]
    exact Rerunning.instantiations_demo
  have hnever : Rerunning.request.analysis.cancellation = .never := rfl
  have hunindexed := Session.unindexed_ofStore files [] false before hnever
  rw [runEvents_before] at hunindexed
  have hask : opened.ask .resolve = (Session.ofStore Rerunning.request.analysis loaded).ask .resolve :=
    hunindexed.ask_index .resolve
  rw [hask, Session.ask, hresolve]
  rfl

theorem addTypes_opened : (opened.addTypes path "Jobs" [.ref closed]).1 = .ok group := by
  obtain ⟨files', hwrite⟩ := Rerunning.write_demo
  have hadd : opened.store.add path = (.ok 0, opened.store) := rfl
  have hmade : opened.store.synthesize 0 (some (Index.ofModules [demo])) "Jobs" [.ref closed]
      = (.ok group, { opened.store.replace 0 (demo.withGroup "Jobs" [closed]) with files := files' }) :=
    Store.synthesize_of_ok rfl Rerunning.synthesize_demo rfl hwrite
  have hknown : opened.knownIndex = some (Index.ofModules [demo]) := rfl
  rw [Session.addTypes_of_known hknown hadd, hmade]

/-- The module has the closed job by the time of the question, and the answer is the one it was without. -/
theorem answers_demo : Rerunning.request.analysis.cancellation = .never ∧ opened.knownIndex ≠ none ∧
    (opened.addTypes path "Jobs" [.ref closed]).1 = .ok group ∧
      (opened.runEvents later).1 = [(.resolve, .ok (.resolve [closed]))] := by
  have hindexed : opened.knownIndex ≠ none := Option.some_ne_none _
  have hanswers := Session.answers_are_snapshots files [] false before Rerunning.request.analysis rfl past
    runEvents_past.symm hindexed later
  have hquestions : later.filterMap (·.action.question?) = [.resolve] := rfl
  rw [hquestions, List.map_singleton, resolve_opened] at hanswers
  exact ⟨rfl, hindexed, addTypes_opened, hanswers⟩

end Observing

end JobClosure
