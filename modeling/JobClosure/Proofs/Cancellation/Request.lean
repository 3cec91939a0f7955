import JobClosure.Proofs.Cancellation.Analysis
import JobClosure.Proofs.Store.Failures
import JobClosure.Proofs.Store.Reload
import JobClosure.Proofs.Store.Teardown

/-!
# A request is cancelled or it is not

A request asks whether it has been cancelled while it scans and resolves: after everything is loaded, and before
anything is written. So what it comes to is one of two things. If the cancellation leaves it all its questions, it
ends as it does without one. If it does not, the request is stopped, and nothing was written by then
(`Request.run_cancelled`).

Two runs that end alike have to be told from a run that is stopped, and for this nothing that loads, synthesises or
writes may fail as if it had been cancelled.
-/

namespace JobClosure

/-! ## What is never cancelled -/

namespace Store

/-- **Loading a module** is not cancelled. -/
theorem not_cancelled_add (s : Store) (path : Path) : ¬ Cancelled (s.add path) := by
  intro h
  cases hclosed : s.closed with
  | true =>
    rw [Cancelled, add, hclosed] at h
    cases h
  | false =>
    rcases add_cases hclosed path with hraises | ⟨error, -, hadd, -, hload⟩ | ⟨handle, s', skips, hadd, -⟩
    · obtain ⟨error, s', hadd, hraw⟩ := hraises.exists_error hclosed
      rw [hadd] at h
      obtain rfl := cancelled_error_iff.mp h
      cases hraw
    · rw [hadd] at h
      obtain rfl := cancelled_error_iff.mp h
      cases hload
    · rw [hadd] at h
      cases h

theorem not_cancelled_add? (s : Store) (path : Path) : ¬ Cancelled (s.add? path) := by
  have hadd := s.not_cancelled_add path
  unfold add?
  split
  · exact nofun
  · rename_i error s' heq
    rw [heq] at hadd
    split
    · exact nofun
    · exact mt cancelled_error_congr.mp hadd

theorem not_cancelled_addAll (s : Store) (paths : List Path) : ¬ Cancelled (s.addAll paths) := by
  induction paths generalizing s with
  | nil => exact nofun
  | cons path rest ih =>
    have hadd := s.not_cancelled_add? path
    unfold addAll
    split
    · rename_i error s' heq
      rw [heq] at hadd
      exact mt cancelled_error_congr.mp hadd
    · rename_i handle s' heq
      exact fun h => ih s' (map_eq_error h)

theorem not_cancelled_select (s : Store) (hints : List String) (exclude : Bool) :
    ¬ Cancelled (s.select hints exclude) := by
  unfold select
  split
  · exact nofun
  · rename_i paths hpaths
    have hadd := s.not_cancelled_addAll paths
    split
    · rename_i error s' heq
      rw [heq] at hadd
      exact hadd
    · split
      · exact nofun
      · exact nofun

/-- **Synthesising a group** is not cancelled: it fails for what it is given, or because it cannot write. -/
theorem not_cancelled_synthesize (s : Store) (handle : Nat) (index : Option Index) (group : String)
    (items : List Instantiation) : ¬ Cancelled (s.synthesize handle index group items) := by
  unfold synthesize
  split
  · rename_i error heq
    intro h
    obtain rfl := cancelled_error_iff.mp h
    unfold Module.synthesize at heq
    split at heq
    · exact nomatch heq
    · split at heq
      · exact nomatch heq
      · exact nomatch heq
  · rename_i type m heq
    intro h
    obtain ⟨cause, -, hcancelled⟩ := mapError_eq_error (map_eq_error h)
    exact nomatch hcancelled

end Store

theorem Session.not_cancelled_addTypes (s : Session) (path : Path) (group : String) (items : List Instantiation) :
    ¬ Cancelled (s.addTypes path group items) := by
  have hadd := s.store.not_cancelled_add path
  unfold addTypes
  split
  · rename_i error s' heq
    intro h
    obtain rfl := cancelled_error_iff.mp h
    exact hadd (congrArg Prod.fst heq)
  · exact Store.not_cancelled_synthesize _ _ _ _ _

namespace Request

theorem not_cancelled_loadPaths (store : Store) (paths : List Path) : ¬ Cancelled (loadPaths store paths) := by
  induction paths generalizing store with
  | nil => exact nofun
  | cons path rest ih =>
    have hadd := store.not_cancelled_add path
    unfold loadPaths
    split
    · rename_i error store' heq
      rw [heq] at hadd
      exact mt cancelled_error_congr.mp hadd
    · exact ih _

theorem not_cancelled_load (r : Request) (store : Store) : ¬ Cancelled (r.load store) := by
  have hpaths := not_cancelled_loadPaths store r.paths
  unfold load
  split
  · rename_i error store' heq
    rw [heq] at hpaths
    exact hpaths
  · split
    · exact nofun
    · exact fun h => Store.not_cancelled_select _ _ _ (map_eq_error h)

theorem not_cancelled_addToTarget (r : Request) (s : Session) (refs : List TypeRef) :
    ¬ Cancelled (r.addToTarget s refs) := by
  unfold addToTarget
  split
  · exact nofun
  · split
    · exact nofun
    · exact fun h => s.not_cancelled_addTypes _ _ _ (map_eq_error h)

end Request

/-! ## What is written before a request is stopped -/

namespace Session

open Store (Noted)

theorem noted_index (s : Session) : s.store.Noted s.index.2.store := by
  unfold index
  split
  · exact ⟨_, _, rfl⟩
  · exact Store.noted_note _ _

theorem noted_scan (s : Session) : s.store.Noted s.scan.2.store := by
  unfold scan
  split
  · exact ⟨_, _, rfl⟩
  · have hindex := s.noted_index
    dsimp only
    split
    · exact hindex
    · exact hindex.trans (Store.noted_report _ _)

/-- **Resolving** reports, and does nothing else to the store. -/
theorem noted_resolve (s : Session) : s.store.Noted s.resolve.2.store := by
  have hscan := s.noted_index.trans s.index.2.noted_scan
  unfold resolve
  dsimp only
  split
  · rename_i error s' heq
    rwa [heq] at hscan
  · rename_i found s' heq
    rw [heq] at hscan
    exact hscan.trans (Store.noted_report _ _)

end Session

namespace Request

variable {r : Request} {files : FileTree}

theorem extends_loadPaths (store : Store) (paths : List Path) : store.Extends (loadPaths store paths).2 := by
  induction paths generalizing store with
  | nil => exact Store.Extends.refl store
  | cons path rest ih =>
    have hadd := store.extends_add path
    unfold loadPaths
    split
    · rename_i error store' heq
      rwa [heq] at hadd
    · rename_i handle store' heq
      rw [heq] at hadd
      exact hadd.trans (ih store')

theorem extends_load (r : Request) (store : Store) : store.Extends (r.load store).2 := by
  have hpaths := extends_loadPaths store r.paths
  unfold load
  split
  · rename_i error store' heq
    rwa [heq] at hpaths
  · rename_i store' heq
    rw [heq] at hpaths
    split
    · exact hpaths
    · exact hpaths.trans (Store.extends_select _ _ _)

/-- **Only resolving is cancelled**, so a session that is stopped has changed no file. -/
theorem files_of_cancelled_analyse {s : Session} (h : Cancelled (r.analyse s)) :
    (r.analyse s).2.store.files = s.store.files := by
  have hnoted := s.noted_resolve
  unfold analyse at h ⊢
  split at h
  · rename_i error s' heq
    rw [heq] at hnoted
    exact hnoted.files
  · rename_i refs s' heq
    have htarget := r.not_cancelled_addToTarget s' refs
    split at h
    · rename_i error s'' heq'
      rw [heq'] at htarget
      exact absurd (cancelled_error_congr.mp h) htarget
    · exact nomatch h

/-- **A request that is stopped has written nothing.** -/
theorem files_of_cancelled (h : Cancelled (r.run files)) : (r.run files).2.files = files := by
  have hload := r.not_cancelled_load (r.store files)
  have hfiles := (r.extends_load (r.store files)).files
  unfold run at h ⊢
  split at h
  · rename_i error store heq
    rw [heq] at hload
    exact absurd (cancelled_error_congr.mp h) hload
  · rename_i store heq
    rw [heq] at hfiles
    exact (Store.files_close _).trans ((files_of_cancelled_analyse h).trans hfiles)

end Request

/-! ## The questions of a request -/

/-- The session with another cancellation. -/
def Session.cancelling (s : Session) (c : Cancellation) : Session := { s with cancellation := c }

/-- The request with another cancellation. -/
def Request.cancelling (r : Request) (c : Cancellation) : Request :=
  { r with analysis := { r.analysis with cancellation := c } }

namespace Session

/-- What an indexed session makes of a scan of its modules. -/
def keepScan (s : Session) : Except Error ScanResult × ScanState → Except Error ScanResult × Session
  | (.error error, state) => (.error error, s.cancelling state.cancellation)
  | (.ok found, state) =>
    (.ok found, { s with
      cancellation := state.cancellation
      knownScan := some found
      store := s.store.report found.diagnostics })

/-- What a session makes of a resolution. -/
def keepResolution (s : Session) (out : Except Error (List TypeRef) × List Diagnostic × Cancellation) :
    Except Error (List TypeRef) × Session :=
  (out.1, { s with cancellation := out.2.2, store := s.store.report out.2.1 })

variable (s : Session) (c : Cancellation)

/-- The index does not depend on the cancellation. -/
theorem index_cancelling : (s.cancelling c).index = (s.index.1, s.index.2.cancelling c) := by
  obtain ⟨store, marker, cancellation, known | known, scan⟩ := s
  · rfl
  · rfl

theorem scan_of_none (hknown : s.knownScan = none) :
    s.scan = s.index.2.keepScan
      (Scanner.scanModules ⟨s.index.1, s.index.2.marker⟩ ⟨[], s.index.2.cancellation⟩ s.index.2.modules) := by
  rw [scan, hknown]
  rfl

theorem resolve_eq : s.resolve = onResult s.index.2.scan fun found s' =>
    s'.keepResolution
      (Resolver.resolve ⟨s.index.1, CallGraph.ofSites found.callSites⟩ s'.cancellation found.calls).out := by
  rw [resolve]
  dsimp only
  rcases s.index.2.scan with ⟨error | found, s'⟩
  · rfl
  · rfl

theorem cancelled_keepScan_iff (out : Except Error ScanResult × ScanState) :
    Cancelled (s.keepScan out) ↔ Cancelled out := by
  rcases out with ⟨error | found, state⟩
  · exact cancelled_error_congr
  · exact iff_of_false nofun nofun

/-- **A scan** asks what scanning the modules asks. One that is known already asks nothing. -/
theorem polls_scan : Polls cancelling fun c => (s.cancelling c).scan := by
  cases hknown : s.knownScan with
  | some found =>
    have hscan : ∀ c, (s.cancelling c).scan = (.ok found, s.cancelling c) := by
      intro c
      have hknown : (s.cancelling c).knownScan = some found := hknown
      rw [scan, hknown]
    simp only [hscan]
    exact .nothing s nofun
  | none =>
    have hscan : ∀ c, (s.cancelling c).scan = s.index.2.keepScan
        (Scanner.scanModules ⟨s.index.1, s.index.2.marker⟩ ⟨[], c⟩ s.index.2.modules) := by
      intro c
      have hknown : (s.cancelling c).knownScan = none := hknown
      rw [scan_of_none _ hknown, index_cancelling]
      rfl
    simp only [hscan]
    refine (Scanner.polls_scanModules _ _ _).thenNothing s.index.2.keepScan s.index.2.cancelled_keepScan_iff ?_
    rintro (error | found) memo
    · exact ⟨.error error, s.index.2, fun _ => rfl⟩
    · exact ⟨.ok found, (s.index.2.keepScan (.ok found, {})).2, fun _ => rfl⟩

/-- **Resolving** asks what the scan asks, and then what the walks ask. -/
theorem polls_resolve : Polls cancelling fun c => (s.cancelling c).resolve := by
  simp only [resolve_eq, index_cancelling]
  refine s.index.2.polls_scan.onResult fun found scanned => ?_
  refine (Resolver.polls_resolve _ found.calls).thenNothing scanned.keepResolution (fun _ => Iff.rfl) ?_
  exact fun result diagnostics =>
    ⟨result, (scanned.keepResolution (result, diagnostics, .never)).2, fun _ => rfl⟩

theorem addTypes_cancelling (path : Path) (group : String) (items : List Instantiation) :
    (s.cancelling c).addTypes path group items
      = ((s.addTypes path group items).1, (s.addTypes path group items).2.cancelling c) := by
  have hadd : (s.cancelling c).addModule path = ((s.addModule path).1, (s.addModule path).2.cancelling c) := rfl
  rw [addTypes, addTypes, hadd]
  rcases s.addModule path with ⟨error | handle, s'⟩
  · rfl
  · dsimp only
    rw [index_cancelling]
    rfl

end Session

namespace Request

variable (r : Request)

theorem analyse_eq (s : Session) : r.analyse s = onResult s.resolve fun refs s =>
    onResult (r.addToTarget s refs) fun synthesized s => (.ok ⟨refs, synthesized, s.store.diagnostics⟩, s) := by
  rw [analyse]
  rcases s.resolve with ⟨error | refs, s'⟩
  · rfl
  · dsimp only [onResult]
    rcases r.addToTarget s' refs with ⟨error | synthesized, s''⟩
    · rfl
    · rfl

theorem addToTarget_cancelling (s : Session) (refs : List TypeRef) (c : Cancellation) :
    r.addToTarget (s.cancelling c) refs
      = ((r.addToTarget s refs).1, (r.addToTarget s refs).2.cancelling c) := by
  rw [addToTarget, addToTarget]
  cases r.target with
  | none => rfl
  | some path =>
    dsimp only
    split
    · rfl
    · rw [Session.addTypes_cancelling]

/-- **Adding to the target** asks nothing. -/
theorem polls_addToTarget (s : Session) (refs : List TypeRef) :
    Polls Session.cancelling fun c => r.addToTarget (s.cancelling c) refs := by
  simp only [addToTarget_cancelling]
  exact .nothing _ (r.not_cancelled_addToTarget s refs)

theorem polls_analyse (s : Session) : Polls Session.cancelling fun c => r.analyse (s.cancelling c) := by
  simp only [analyse_eq]
  refine s.polls_resolve.onResult fun refs resolved => ?_
  refine (r.polls_addToTarget resolved refs).onResult fun synthesized s' => ?_
  exact ⟨0, .ok ⟨refs, synthesized, s'.store.diagnostics⟩, s', .nothing fun _ => nofun⟩

/-- **A request** has a number of questions, and a result and a store that do not depend on the cancellation. -/
theorem polls_run (files : FileTree) : Polls (fun store _ => store) fun c => (r.cancelling c).run files := by
  have hload := r.not_cancelled_load (r.store files)
  rcases heq : r.load (r.store files) with ⟨error | loaded, store⟩
  · have hrun : ∀ c, (r.cancelling c).run files = (.error error, store.close) := by
      intro c
      have heq : (r.cancelling c).load ((r.cancelling c).store files) = (.error error, store) := heq
      rw [run, heq]
    rw [heq] at hload
    simp only [hrun]
    exact .nothing store.close fun herror => hload (cancelled_error_iff.mpr (Except.error.inj herror))
  · have hrun : ∀ c, (r.cancelling c).run files
        = ((r.analyse ((Session.ofStore r.analysis store).cancelling c)).1,
            (r.analyse ((Session.ofStore r.analysis store).cancelling c)).2.close.store) := by
      intro c
      have heq : (r.cancelling c).load ((r.cancelling c).store files) = (.ok (), store) := heq
      rw [run, heq]
      rfl
    simp only [hrun]
    refine (r.polls_analyse (Session.ofStore r.analysis store)).thenNothing (fun out => (out.1, out.2.close.store))
      (fun _ => Iff.rfl) ?_
    exact fun result s => ⟨result, s.store.close, fun _ => rfl⟩

/-- When everything is loaded there is a type to scan. -/
def HasTypes (files : FileTree) : Prop :=
  ∃ loaded, r.load (r.store files) = (.ok (), loaded) ∧
    ∃ m ∈ loaded.modules, (Index.ofModules loaded.modules).typesOf m ≠ []

/-- A request that was cancelled before it started is stopped before the first type. -/
theorem HasTypes.cancelled {r : Request} {files : FileTree} (h : r.HasTypes files) :
    Cancelled ((r.cancelling .now).run files) := by
  obtain ⟨loaded, hload, htypes⟩ := h
  have hload : (r.cancelling .now).load ((r.cancelling .now).store files) = (.ok (), loaded) := hload
  let s := Session.ofStore (r.cancelling .now).analysis loaded
  have heach : Cancelled (Scanner.scanEach ⟨s.index.1, s.index.2.marker⟩ ⟨[], .now⟩ s.index.2.modules) :=
    Scanner.cancelled_scanEach _ [] htypes
  have hscan : Cancelled s.index.2.scan := by
    rw [Session.scan_of_none _ rfl]
    exact (Session.cancelled_keepScan_iff _ _).mpr (cancelled_map_iff.mpr heach)
  have hresolve : Cancelled s.resolve := by
    rw [Session.resolve_eq]
    exact hscan.onResult _
  have hanalyse : Cancelled ((r.cancelling .now).analyse s) := by
    rw [analyse_eq]
    exact hresolve.onResult _
  rw [run, hload]
  exact hanalyse

/--
**A request is cancelled or it is not.**

A request asks a number of questions on some files, at least one if there is a type to scan. A cancellation that
leaves it all of them makes no difference: the request ends as it does without one, with the same answer and the same
store. Any other cancellation stops it; then every file is as it was, and whatever was opened is released.
-/
theorem run_cancelled (files : FileTree) : ∃ polls, (r.HasTypes files → 0 < polls) ∧ ∀ questions,
    ((r.cancelling (.after questions)).run files = (r.cancelling .never).run files ↔ polls ≤ questions) ∧
    (questions < polls → ∃ store, (r.cancelling (.after questions)).run files = (.error .cancelled, store) ∧
      store.files = files ∧ store.Settled) := by
  obtain ⟨polls, result, store, hasks⟩ := r.polls_run files
  refine ⟨polls, fun htypes => ?_, fun questions => ⟨⟨fun hsame => ?_, fun hle => ?_⟩, fun hlt => ?_⟩⟩
  · by_contra hzero
    refine hasks.goes .now ?_
    rw [← hasks.after_of_le (Nat.not_lt.mp hzero)]
    exact htypes.cancelled
  · rw [hasks.never] at hsame
    by_contra hlt
    refine hasks.goes .never ?_
    rw [← hsame]
    exact hasks.after_of_lt (Nat.not_le.mp hlt)
  · exact (hasks.after_of_le hle).trans hasks.never.symm
  · have hstopped := hasks.after_of_lt hlt
    exact ⟨_, Prod.ext hstopped rfl, files_of_cancelled hstopped, settled_run _ _⟩

end Request

end JobClosure
