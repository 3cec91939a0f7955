import JobClosure.Proofs.Store.Balance
import JobClosure.Request

/-!
# Every opened module is released

A **run** of a store is a list of actions, each with what the outside makes of it: before every action the
files may be any files, and the device may be full or not. So every action may end in any way it can.

Balanced books are what every run keeps (`run_serves`). They say at any time that an opened module is either
held or released, and closing turns all of the first kind into the second. Requests and sessions work on a
store through such actions only, so it does not matter where they stop: a request closes its store, and so
does a session that cannot be opened (`every_module_released`).
-/

namespace JobClosure

namespace Store

/-- What can be asked of a store. -/
inductive Action
  | add (path : Path)
  /-- Load a module if that is possible. -/
  | add? (path : Path)
  | select (hints : List String) (exclude : Bool)
  | release (handle : Nat)
  | write (m : Module) (withSymbols : Bool)
  /-- Synthesise a group of closed types in a module and write it. -/
  | synthesize (handle : Nat) (index : Option Index) (group : String) (items : List Instantiation)
  | close

/-- An action with what it meets: the files, and whether there is space left. -/
structure Event where
  files : FileTree
  full : Bool
  action : Action

/-- Carries an action out. The answer holds the handles of the modules that are handed out. -/
def perform (s : Store) : Action → Except Error (List Nat) × Store
  | .add path => ((s.add path).1.map ([·]), (s.add path).2)
  | .add? path => ((s.add? path).1.map Option.toList, (s.add? path).2)
  | .select hints exclude => s.select hints exclude
  | .release handle => (.ok [], s.release handle)
  | .write m withSymbols => ((s.write m withSymbols).1.map fun _ => [], (s.write m withSymbols).2)
  | .synthesize handle index group items =>
    let (result, s) := s.synthesize handle index group items
    (result.map fun _ => [], s)
  | .close => (.ok [], s.close)

/-- The store as an event finds it. -/
def meet (s : Store) (event : Event) : Store := { s with files := event.files, full := event.full }

/-- A run: the handles that were handed out in its course, and the store after it. -/
def runEvents (s : Store) : List Event → List Nat × Store
  | [] => ([], s)
  | event :: rest =>
    let (answer, s) := (s.meet event).perform event.action
    let (more, s) := s.runEvents rest
    (handedOut answer ++ more, s)

/-- A store as it is made. -/
def new (files : FileTree) (searchPaths : List Path) (followReferences : Bool) : Store :=
  { files, searchPaths, followReferences }

theorem balanced_new (files : FileTree) (searchPaths : List Path) (followReferences : Bool) :
    (new files searchPaths followReferences).Balanced :=
  balanced_of_new rfl rfl rfl

/-! ## Runs -/

theorem keeps_meet (s : Store) (event : Event) : s.Keeps (s.meet event) :=
  SameBooks.keeps ⟨rfl, rfl, rfl, rfl⟩

theorem Keeps.serves_unit {α : Type} {s s' : Store} (h : s.Keeps s') (result : Except Error α) :
    s.Serves (result.map fun _ => []) s' := by
  cases result with
  | error error => exact h.serves_error error
  | ok _ => exact h.serves_none

/-- **One action** keeps the books, whichever way it ends. -/
theorem perform_serves (s : Store) (action : Action) :
    s.Serves (s.perform action).1 (s.perform action).2 := by
  cases action with
  | add path => exact serves_add s path
  | add? path => exact serves_add? s path
  | select hints exclude => exact serves_select s hints exclude
  | release handle => exact (keeps_release s handle).serves_none
  | write m withSymbols => exact (keeps_write s m withSymbols).serves_unit _
  | synthesize handle index group items => exact (keeps_synthesize s handle index group items).serves_unit _
  | close => exact (keeps_close s).serves_none

/-- **A run** keeps the books. What it has handed out is still known to the store. -/
theorem run_serves (s : Store) (events : List Event) :
    s.Serves (.ok (s.runEvents events).1) (s.runEvents events).2 := by
  induction events generalizing s with
  | nil => exact (Keeps.refl s).serves_none
  | cons event rest ih =>
    have hmeet := keeps_meet s event
    have hfirst := perform_serves (s.meet event) event.action
    have hrest := ih ((s.meet event).perform event.action).2
    refine ⟨hmeet.trans (hfirst.toKeeps.trans hrest.toKeeps), fun hs handle hmem => ?_⟩
    have hs := hmeet.balanced hs
    rcases List.mem_append.mp hmem with hmem | hmem
    · exact Nat.lt_of_lt_of_le (hfirst.handedOut_lt hs handle hmem) hrest.openCount_le
    · exact hrest.handedOut_lt (hfirst.balanced hs) handle hmem

theorem runEvents_append (s : Store) (before later : List Event) :
    (s.runEvents (before ++ later)).2 = ((s.runEvents before).2.runEvents later).2 := by
  induction before generalizing s with
  | nil => rfl
  | cons event rest ih => exact ih _

/-- A store that is closed in the course of a run is closed after it. -/
theorem closed_runEvents (s : Store) (before : List Event) (files : FileTree) (full : Bool)
    (later : List Event) : (s.runEvents (before ++ ⟨files, full, .close⟩ :: later)).2.closed = true := by
  rw [runEvents_append]
  exact (run_serves _ later).closed rfl

/-- A closed store that holds nothing and has released whatever it opened. -/
structure Settled (s : Store) : Prop where
  closed : s.closed = true
  held : s.held = []
  count : s.openCount = s.releaseCount
  released : ∀ handle m, s.module? handle = some m → m.released = true
  close_eq : s.close = s

theorem Balanced.settled {s : Store} (h : s.Balanced) (hclosed : s.closed = true) : s.Settled where
  closed := hclosed
  held := h.closed hclosed
  count := by
    have hcount := h.count
    rw [h.closed hclosed] at hcount
    exact hcount
  released := fun _ _ hm => h.released_of_closed hclosed hm
  close_eq := close_of_closed h hclosed

theorem Balanced.settled_close {s : Store} (h : s.Balanced) : s.close.Settled := h.close.settled rfl

end Store

/-! ## Sessions -/

namespace Session

open Store (Keeps)

theorem keeps_index (s : Session) : s.store.Keeps s.index.2.store := by
  unfold index
  split
  · exact Keeps.refl _
  · exact Store.keeps_note _ _

theorem keeps_scan (s : Session) : s.store.Keeps s.scan.2.store := by
  unfold scan
  split
  · exact Keeps.refl _
  · have hindex := s.keeps_index
    dsimp only
    split
    · exact hindex
    · exact hindex.trans (Store.keeps_report _ _)

theorem keeps_resolve (s : Session) : s.store.Keeps s.resolve.2.store := by
  have hindex := s.keeps_index
  have hscan := s.index.2.keeps_scan
  unfold resolve
  dsimp only
  split
  · rename_i error s' heq
    rw [heq] at hscan
    exact hindex.trans hscan
  · rename_i found s' heq
    rw [heq] at hscan
    exact hindex.trans (hscan.trans (Store.keeps_report _ _))

theorem keeps_addTypes (s : Session) (path : Path) (group : String) (items : List Instantiation) :
    s.store.Keeps (s.addTypes path group items).2.store := by
  have hadd : s.store.Keeps (s.addModule path).2.store := (Store.serves_add s.store path).toKeeps
  unfold addTypes
  split
  · rename_i error s' heq
    rwa [heq] at hadd
  · rename_i handle s' heq
    rw [heq] at hadd
    exact hadd.trans (s'.keeps_index.trans (Store.keeps_synthesize _ _ _ _ _))

/-- A session that cannot be opened leaves a settled store behind. -/
theorem settled_of_ofLoaded {α : Type} {options : AnalysisOptions} {result : Except Error α} {store : Store}
    (h : store.Balanced) : ∀ error s, ofLoaded options (result, store) = .error (error, s) → s.Settled := by
  intro error s heq
  cases result with
  | ok _ => exact nomatch heq
  | error _ =>
    obtain ⟨-, rfl⟩ := Prod.mk.inj (Except.error.inj heq)
    exact h.settled_close

end Session

/-! ## Requests -/

namespace Request

open Store (Keeps)

theorem keeps_loadPaths (store : Store) (paths : List Path) : store.Keeps (loadPaths store paths).2 := by
  induction paths generalizing store with
  | nil => exact Keeps.refl _
  | cons path rest ih =>
    have hadd := (Store.serves_add store path).toKeeps
    rw [loadPaths]
    split
    · rename_i error store' heq
      rwa [heq] at hadd
    · rename_i handle store' heq
      rw [heq] at hadd
      exact hadd.trans (ih store')

theorem keeps_load (r : Request) (store : Store) : store.Keeps (r.load store).2 := by
  have hpaths := keeps_loadPaths store r.paths
  unfold load
  split
  · rename_i error store' heq
    rwa [heq] at hpaths
  · rename_i store' heq
    rw [heq] at hpaths
    split
    · exact hpaths
    · exact hpaths.trans (Store.serves_select store' r.hints r.exclude).toKeeps

theorem keeps_addToTarget (r : Request) (s : Session) (refs : List TypeRef) :
    s.store.Keeps (r.addToTarget s refs).2.store := by
  unfold addToTarget
  split
  · exact Keeps.refl _
  · split
    · exact Store.keeps_note _ _
    · exact s.keeps_addTypes _ _ _

theorem keeps_analyse (r : Request) (s : Session) : s.store.Keeps (r.analyse s).2.store := by
  have hresolve := s.keeps_resolve
  unfold analyse
  split
  · rename_i error s' heq
    rwa [heq] at hresolve
  · rename_i refs s' heq
    rw [heq] at hresolve
    have htarget := r.keeps_addToTarget s' refs
    split
    · rename_i error s'' heq'
      rw [heq'] at htarget
      exact hresolve.trans htarget
    · rename_i synthesized s'' heq'
      rw [heq'] at htarget
      exact hresolve.trans htarget

/-- **A request settles its store**, wherever it stops. -/
theorem settled_run (r : Request) (files : FileTree) : (r.run files).2.Settled := by
  have hload : (r.load (r.store files)).2.Balanced :=
    (r.keeps_load _).balanced (Store.balanced_of_new rfl rfl rfl)
  unfold run
  split
  · rename_i error store heq
    rw [heq] at hload
    exact hload.settled_close
  · rename_i store heq
    rw [heq] at hload
    exact ((r.keeps_analyse (.ofStore r.analysis store)).balanced hload).settled_close

end Request

/--
**Every module that a store opens is released.**

In every run of a new store, whatever it meets, as many modules were opened as were released or are held. No
held module is released, and no place is held twice. Once the store has been closed nothing is held, and every
module that the run handed out, before or after, is released; closing the store again changes nothing.

Hence a request leaves such a store behind wherever it stops, and so does the attempt to open a session about
a path or about hints when it fails.
-/
theorem every_module_released :
    (∀ files searchPaths followReferences events,
      let run := (Store.new files searchPaths followReferences).runEvents events
      run.2.openCount = run.2.releaseCount + run.2.held.length
        ∧ (∀ entry ∈ run.2.held, ∃ m, run.2.module? entry.2 = some m ∧ m.released = false
            ∧ m.path = some entry.1 ∧ entry.1.resolve = entry.1)
        ∧ run.2.places.Nodup)
    ∧ (∀ files searchPaths followReferences before met full later,
      let run := (Store.new files searchPaths followReferences).runEvents
        (before ++ ⟨met, full, .close⟩ :: later)
      run.2.Settled ∧ ∀ handle ∈ run.1, ∃ m, run.2.module? handle = some m ∧ m.released = true)
    ∧ (∀ (r : Request) files, (r.run files).2.Settled)
    ∧ (∀ options files searchPaths followReferences path error store,
        Session.ofPath options (.new files searchPaths followReferences) path = .error (error, store) →
          store.Settled)
    ∧ ∀ options files searchPaths followReferences hints exclude error store,
        Session.ofHints options (.new files searchPaths followReferences) hints exclude
          = .error (error, store) → store.Settled := by
  refine ⟨?_, ?_, Request.settled_run, ?_, ?_⟩
  · intro files searchPaths followReferences events
    have hrun := (Store.run_serves (.new files searchPaths followReferences) events).balanced
      (Store.balanced_new files searchPaths followReferences)
    exact ⟨hrun.count, hrun.held, hrun.places_nodup⟩
  · -- a store that is closed stays so, and a balanced store that is closed holds nothing
    intro files searchPaths followReferences before met full later
    have hnew := Store.balanced_new files searchPaths followReferences
    have hserves := Store.run_serves (.new files searchPaths followReferences)
      (before ++ ⟨met, full, .close⟩ :: later)
    have hclosed := Store.closed_runEvents (.new files searchPaths followReferences) before met full later
    have hsettled := (hserves.balanced hnew).settled hclosed
    refine ⟨hsettled, fun handle hmem => ?_⟩
    have hlt := hserves.handedOut_lt hnew handle hmem
    exact ⟨_, List.getElem?_eq_getElem hlt, hsettled.released handle _ (List.getElem?_eq_getElem hlt)⟩
  · intro options files searchPaths followReferences path
    exact Session.settled_of_ofLoaded ((Store.serves_add _ path).balanced (Store.balanced_new _ _ _))
  · intro options files searchPaths followReferences hints exclude
    exact Session.settled_of_ofLoaded
      ((Store.serves_select _ hints exclude).balanced (Store.balanced_new _ _ _))

end JobClosure
