import JobClosure.Proofs.Store.Adding
import JobClosure.Request

/-!
# Loading again

Loading looks for files, reads modules and goes on to what they refer to. Two trees in which files are found in
the same places, and in which the modules have the same names and references, are loaded alike
(`FileTree.LoadsAs`): the same places are held in the same order, each with what its tree says
(`Store.Parallels`).

This is a simulation in one direction. It is said of the first load only where it goes on: an error that stops
it stops what follows from it (`Follows`).
-/

namespace JobClosure

/-- Whatever can be loaded from `tree` can be loaded from `tree'`, from the same places and with the same
references. What is left out from `tree` is left out from `tree'`. -/
structure FileTree.LoadsAs (tree tree' : FileTree) : Prop where
  findModule? : ∀ name roots, tree'.findModule? name roots = tree.findModule? name roots
  selectModules : ∀ roots hints exclude paths, tree.selectModules roots hints exclude = .ok paths →
    tree'.selectModules roots hints exclude = .ok paths
  readModule : ∀ place m, place.resolve = place → tree.readModule place = .ok m →
    ∃ m', tree'.readModule place = .ok m' ∧ m'.name = m.name ∧ m'.references = m.references
  refuses : ∀ place error, place.resolve = place → tree.readModule place = .error error → error.isLoad = true →
    ∃ error', tree'.readModule place = .error error' ∧ error'.isLoad = true

theorem FileTree.LoadsAs.refl (tree : FileTree) : tree.LoadsAs tree where
  findModule? _ _ := rfl
  selectModules _ _ _ _ h := h
  readModule _ m _ h := ⟨m, h, rfl, rfl⟩
  refuses _ error _ h hload := ⟨error, h, hload⟩

namespace Store

variable {tree tree' : FileTree}

/-- What is held for an entry is what the files of both stores say. -/
structure BothRead (tree tree' : FileTree) (s s' : Store) (entry : Path × Nat) (m m' : Module) : Prop where
  resolved : entry.1.resolve = entry.1
  held : s.module? entry.2 = some m
  held' : s'.module? entry.2 = some m'
  read : tree.readModule entry.1 = .ok m
  read' : tree'.readModule entry.1 = .ok m'

/-- `s'` is loaded from `tree'` like `s` from `tree`. -/
structure Parallels (tree tree' : FileTree) (s s' : Store) : Prop where
  loadsAs : tree.LoadsAs tree'
  files : s.files = tree
  files' : s'.files = tree'
  searchPaths : s'.searchPaths = s.searchPaths
  followReferences : s'.followReferences = s.followReferences
  closed : s'.closed = s.closed
  full : s'.full = s.full
  held : s'.held = s.held
  openCount : s'.openCount = s.openCount
  modules : ∀ entry ∈ s.held, ∃ m m', BothRead tree tree' s s' entry m m'

/-- `s'` is `s` up to what was reported and logged. -/
def Noted (s s' : Store) : Prop := ∃ diagnostics log, s' = { s with diagnostics := diagnostics, log := log }

theorem Noted.trans {a b c : Store} (hab : a.Noted b) (hbc : b.Noted c) : a.Noted c := by
  obtain ⟨diagnostics, log, rfl⟩ := hab
  obtain ⟨diagnostics', log', rfl⟩ := hbc
  exact ⟨diagnostics', log', rfl⟩

theorem Noted.files {s s' : Store} (h : s.Noted s') : s'.files = s.files := by
  obtain ⟨diagnostics, log, rfl⟩ := h
  rfl

theorem noted_note (s : Store) (lines : List LogLine) : s.Noted (s.note lines) := ⟨_, _, rfl⟩

theorem noted_report (s : Store) (diagnostics : List Diagnostic) : s.Noted (s.report diagnostics) := ⟨_, _, rfl⟩

theorem noted_skip (s : Store) (place : Path) (error : Error) : s.Noted (s.skip place error) := ⟨_, _, rfl⟩

/-- What loading answers from a second store when it answers the first thing from a first store. -/
inductive Follows {α : Type} (tree tree' : FileTree) : Except Error α × Store → Except Error α × Store → Prop
  | loaded {a : α} {s s' : Store} (h : Parallels tree tree' s s') : Follows tree tree' (.ok a, s) (.ok a, s')
  /-- A failure that can be skipped. -/
  | refused {error error' : Error} {s s' : Store} (h : Parallels tree tree' s s') (herror : error.isLoad = true)
      (herror' : error'.isLoad = true) : Follows tree tree' (.error error, s) (.error error', s')
  /-- After any other failure nothing follows. -/
  | stopped {error : Error} {s : Store} {answer : Except Error α × Store} (herror : error.isLoad = false) :
      Follows tree tree' (.error error, s) answer

theorem Follows.of_ok {α : Type} {a : α} {s : Store} {answer : Except Error α × Store}
    (h : Follows tree tree' (.ok a, s) answer) : ∃ s', answer = (.ok a, s') ∧ Parallels tree tree' s s' := by
  cases h with
  | loaded h => exact ⟨_, rfl, h⟩

theorem Follows.map {α β : Type} (f : α → β) {answer answer' : Except Error α × Store}
    (h : Follows tree tree' answer answer') :
    Follows tree tree' (answer.1.map f, answer.2) (answer'.1.map f, answer'.2) := by
  cases h with
  | loaded h => exact .loaded h
  | refused h herror herror' => exact .refused h herror herror'
  | stopped herror => exact .stopped herror

namespace Parallels

variable {s s' : Store}

theorem readModule (h : Parallels tree tree' s s') {place : Path} {m : Module} (hplace : place.resolve = place)
    (hm : s.files.readModule place = .ok m) :
    ∃ m', s'.files.readModule place = .ok m' ∧ m'.references = m.references := by
  rw [h.files] at hm
  rw [h.files']
  obtain ⟨m', hm', -, hreferences⟩ := h.loadsAs.readModule place m hplace hm
  exact ⟨m', hm', hreferences⟩

theorem refuses (h : Parallels tree tree' s s') {place : Path} {error : Error} (hplace : place.resolve = place)
    (hm : s.files.readModule place = .error error) (hload : error.isLoad = true) :
    ∃ error', s'.files.readModule place = .error error' ∧ error'.isLoad = true := by
  rw [h.files] at hm
  rw [h.files']
  exact h.loadsAs.refuses place error hplace hm hload

theorem name_eq (h : Parallels tree tree' s s') {entry : Path × Nat} {m m' : Module}
    (hread : BothRead tree tree' s s' entry m m') : m'.name = m.name := by
  obtain ⟨found, hfound, hname, -⟩ := h.loadsAs.readModule entry.1 m hread.resolved hread.read
  rw [← hname, Except.ok.inj (hread.read'.symm.trans hfound)]

theorem handles (h : Parallels tree tree' s s') : s'.handles = s.handles := by rw [Store.handles, h.held, Store.handles]

theorem handleOf? (h : Parallels tree tree' s s') (place : Path) : s'.handleOf? place = s.handleOf? place := by
  rw [Store.handleOf?, h.held, Store.handleOf?]

theorem isSome_named? (h : Parallels tree tree' s s') (reference : String) :
    (s'.named? reference).isSome = (s.named? reference).isSome := by
  rw [Bool.eq_iff_iff, named?, named?, List.find?_isSome, List.find?_isSome, h.handles]
  refine exists_congr fun handle => and_congr_right fun hmem => ?_
  obtain ⟨entry, hentry, rfl⟩ := List.mem_map.mp hmem
  obtain ⟨m, m', hread⟩ := h.modules entry hentry
  rw [hread.held, hread.held', Option.any_some, Option.any_some, h.name_eq hread]

theorem missing? (h : Parallels tree tree' s s') (reference : String) :
    s'.missing? reference = s.missing? reference := by
  rw [Store.missing?, Store.missing?, h.isSome_named?, h.searchPaths, h.files, h.files', h.loadsAs.findModule?]
  simp only [holds, h.handleOf?]

theorem hold (h : Parallels tree tree' s s') {place : Path} {m m' : Module} (hplace : place.resolve = place)
    (hread : s.files.readModule place = .ok m) (hread' : s'.files.readModule place = .ok m') :
    Parallels tree tree' (s.hold place m) (s'.hold place m') where
  loadsAs := h.loadsAs
  files := h.files
  files' := h.files'
  searchPaths := h.searchPaths
  followReferences := h.followReferences
  closed := h.closed
  full := h.full
  held := by
    have hcount : s'.opened.length = s.opened.length := h.openCount
    show s'.held ++ [(place, s'.opened.length)] = s.held ++ [(place, s.opened.length)]
    rw [h.held, hcount]
  openCount := by
    have hcount : s'.opened.length = s.opened.length := h.openCount
    show (s'.opened ++ [m']).length = (s.opened ++ [m]).length
    rw [List.length_append, List.length_append, hcount]
    rfl
  modules := by
    intro entry hentry
    rcases List.mem_append.mp hentry with hentry | hentry
    · obtain ⟨known, known', hknown⟩ := h.modules entry hentry
      exact ⟨known, known', hknown.resolved, (extends_hold s place m).module? hknown.held,
        (extends_hold s' place m').module? hknown.held', hknown.read, hknown.read'⟩
    · rw [List.mem_singleton.mp hentry]
      refine ⟨m, m', hplace, module?_hold_self s place m, ?_, h.files ▸ hread, h.files' ▸ hread'⟩
      have hself := module?_hold_self s' place m'
      rwa [h.openCount] at hself

/-- What is reported and logged plays no part. -/
theorem of_noted (h : Parallels tree tree' s s') {t t' : Store} (ht : s.Noted t) (ht' : s'.Noted t') :
    Parallels tree tree' t t' := by
  obtain ⟨diagnostics, log, rfl⟩ := ht
  obtain ⟨diagnostics', log', rfl⟩ := ht'
  refine ⟨h.loadsAs, h.files, h.files', h.searchPaths, h.followReferences, h.closed, h.full, h.held, h.openCount, ?_⟩
  intro entry hentry
  obtain ⟨m, m', hread⟩ := h.modules entry hentry
  exact ⟨m, m', hread.resolved, hread.held, hread.held', hread.read, hread.read'⟩

theorem skip (h : Parallels tree tree' s s') (place place' : Path) (error error' : Error) :
    Parallels tree tree' (s.skip place error) (s'.skip place' error') :=
  h.of_noted (noted_skip s place error) (noted_skip s' place' error')

/-- **References are loaded alike.** -/
theorem loadReferences (h : Parallels tree tree' s s') (pending : List String) :
    Follows tree tree' (s.loadReferences pending) (s'.loadReferences pending) := by
  induction s, pending using loadReferences.induct generalizing s' with
  | case1 s =>
    rw [loadReferences_nil, loadReferences_nil]
    exact .loaded h
  | case2 s reference pending fault hp =>
    rw [loadReferences_of_fault hp]
    exact .stopped rfl
  | case3 s reference pending hp ih =>
    rw [loadReferences_of_known hp, loadReferences_of_known ((h.missing? _).trans hp)]
    exact ih h
  | case4 s reference pending place hp m hm ih =>
    obtain ⟨hplace, -⟩ := missing?_eq_some hp
    obtain ⟨m', hm', hreferences⟩ := h.readModule hplace hm
    rw [loadReferences_of_loaded hp hm, loadReferences_of_loaded ((h.missing? _).trans hp) hm', hreferences]
    exact ih (h.hold hplace hm hm')
  | case5 s reference pending place hp error hm hload ih =>
    obtain ⟨hplace, -⟩ := missing?_eq_some hp
    obtain ⟨error', hm', hload'⟩ := h.refuses hplace hm hload
    rw [loadReferences_of_skipped hp hm hload, loadReferences_of_skipped ((h.missing? _).trans hp) hm' hload']
    exact ih (h.skip place place error error')
  | case6 s reference pending place hp error hm hload =>
    -- an error that is passed on ends the first run, and nothing is said about the second
    rw [loadReferences_of_raised hp hm hload]
    exact .stopped (by simpa using hload)

theorem openAt (h : Parallels tree tree' s s') {place : Path} (hplace : place.resolve = place) :
    Follows tree tree' (s.openAt place) (s'.openAt place) := by
  rw [Store.openAt, Store.openAt]
  cases hm : s.files.readModule place with
  | error error =>
    cases hload : error.isLoad with
    | false => exact .stopped hload
    | true =>
      obtain ⟨error', hm', hload'⟩ := h.refuses hplace hm hload
      rw [hm']
      exact .refused h hload hload'
  | ok m =>
    obtain ⟨m', hm', hreferences⟩ := h.readModule hplace hm
    have hheld := h.hold hplace hm hm'
    rw [hm', h.openCount, h.followReferences]
    dsimp only
    split
    · rw [hreferences]
      exact (hheld.loadReferences m.references).map fun _ => s.openCount
    · exact .loaded hheld

/-- **A module is added alike.** -/
theorem add (h : Parallels tree tree' s s') (path : Path) :
    Follows tree tree' (s.add path) (s'.add path) := by
  rw [Store.add, Store.add, h.closed]
  split
  · exact .stopped rfl
  · cases hresolved : path.resolved with
    | error fault => exact .stopped rfl
    | ok place =>
      have hplace : place.resolve = place := by
        unfold Path.resolved at hresolved
        split at hresolved
        · exact nomatch hresolved
        · rw [← Except.ok.inj hresolved, Path.resolve_resolve]
      dsimp only
      rw [h.handleOf?]
      split
      · exact .loaded h
      · exact h.openAt hplace

theorem add? (h : Parallels tree tree' s s') (path : Path) :
    Follows tree tree' (s.add? path) (s'.add? path) := by
  have hadded := h.add path
  rw [Store.add?, Store.add?]
  generalize s.add path = answer at hadded ⊢
  generalize s'.add path = answer' at hadded ⊢
  cases hadded with
  | loaded h => exact .loaded h
  | refused h herror herror' =>
    dsimp only
    rw [if_pos herror, if_pos herror']
    exact .loaded (h.skip _ _ _ _)
  | stopped herror =>
    dsimp only
    rw [herror, if_neg Bool.false_ne_true]
    exact .stopped herror

theorem addAll (h : Parallels tree tree' s s') (paths : List Path) :
    Follows tree tree' (s.addAll paths) (s'.addAll paths) := by
  induction paths generalizing s s' with
  | nil => exact .loaded h
  | cons path rest ih =>
    have hfirst := h.add? path
    rw [Store.addAll, Store.addAll]
    generalize s.add? path = answer at hfirst ⊢
    generalize s'.add? path = answer' at hfirst ⊢
    cases hfirst with
    | refused h herror herror' => exact .refused h herror herror'
    | stopped herror => exact .stopped herror
    | @loaded handle t t' h => exact (ih h).map (handle.toList ++ ·)

theorem select (h : Parallels tree tree' s s') (hints : List String) (exclude : Bool) :
    Follows tree tree' (s.select hints exclude) (s'.select hints exclude) := by
  rw [Store.select, Store.select]
  rw [h.files, h.files']
  cases hpaths : tree.selectModules s.searchPaths hints exclude with
  | error fault => exact .stopped rfl
  | ok paths =>
    rw [h.searchPaths, h.loadsAs.selectModules _ _ _ _ hpaths]
    have hall := h.addAll paths
    dsimp only
    generalize s.addAll paths = answer at hall ⊢
    generalize s'.addAll paths = answer' at hall ⊢
    cases hall with
    | refused h herror herror' => exact .refused h herror herror'
    | stopped herror => exact .stopped herror
    | loaded h =>
      dsimp only
      split
      · exact .refused h rfl rfl
      · exact .loaded h

theorem exists_read_of_handleOf? (h : Parallels tree tree' s s') {place : Path} {handle : Nat}
    (hhandle : s.handleOf? place = some handle) : ∃ m m', BothRead tree tree' s s' (place, handle) m m' := by
  obtain ⟨before, after, hheld, -⟩ := List.lookup_eq_some_iff.mp hhandle
  exact h.modules (place, handle) (hheld ▸ List.mem_append_right before List.mem_cons_self)

/-- A held module was read. -/
theorem exists_read (h : Parallels tree tree' s s') {m : Module} (hm : m ∈ s.modules) :
    ∃ entry m', BothRead tree tree' s s' entry m m' := by
  obtain ⟨handle, hhandle, hfound⟩ := List.mem_filterMap.mp hm
  obtain ⟨entry, hentry, rfl⟩ := List.mem_map.mp hhandle
  obtain ⟨known, m', hread⟩ := h.modules entry hentry
  obtain rfl := Option.some.inj (hfound.symm.trans hread.held)
  exact ⟨entry, m', hread⟩

/-- The held modules are what the files of both stores say, one by one. -/
theorem forall₂_modules (h : Parallels tree tree' s s') {related : Module → Module → Prop}
    (hrelated : ∀ entry m m', BothRead tree tree' s s' entry m m' → related m m') :
    List.Forall₂ related s.modules s'.modules := by
  have hall : ∀ entries : List (Path × Nat),
      (∀ entry ∈ entries, ∃ m m', BothRead tree tree' s s' entry m m') →
        List.Forall₂ related ((entries.map (·.2)).filterMap s.module?)
          ((entries.map (·.2)).filterMap s'.module?) := by
    intro entries hentries
    induction entries with
    | nil => exact .nil
    | cons entry rest ih =>
      obtain ⟨⟨m, m', hread⟩, hrest⟩ := List.forall_mem_cons.mp hentries
      rw [List.map_cons, List.filterMap_cons_some hread.held, List.filterMap_cons_some hread.held']
      exact .cons (hrelated entry m m' hread) (ih hrest)
  rw [Store.modules, Store.modules, h.handles]
  exact hall s.held h.modules

end Parallels

end Store

/-! ## Requests -/

namespace Request

open Store (Follows Parallels)

variable {tree tree' : FileTree}

theorem follows_loadPaths {store store' : Store} (h : Parallels tree tree' store store') (paths : List Path) :
    Follows tree tree' (loadPaths store paths) (loadPaths store' paths) := by
  induction paths generalizing store store' with
  | nil => exact .loaded h
  | cons path rest ih =>
    have hfirst := h.add path
    rw [loadPaths, loadPaths]
    generalize store.add path = answer at hfirst ⊢
    generalize store'.add path = answer' at hfirst ⊢
    cases hfirst with
    | loaded h => exact ih h
    | refused h herror herror' => exact .refused h herror herror'
    | stopped herror => exact .stopped herror

/-- **A request loads the same from trees that are loaded alike.** -/
theorem follows_load (r : Request) {store store' : Store} (h : Parallels tree tree' store store') :
    Follows tree tree' (r.load store) (r.load store') := by
  have hpaths := follows_loadPaths h r.paths
  rw [load, load]
  generalize loadPaths store r.paths = answer at hpaths ⊢
  generalize loadPaths store' r.paths = answer' at hpaths ⊢
  cases hpaths with
  | refused h herror herror' => exact .refused h herror herror'
  | stopped herror => exact .stopped herror
  | @loaded _ t t' h =>
    dsimp only
    split
    · exact .loaded h
    · exact (h.select r.hints r.exclude).map fun _ => ()

theorem parallels_store (r : Request) (h : tree.LoadsAs tree') : Parallels tree tree' (r.store tree) (r.store tree') :=
  ⟨h, rfl, rfl, rfl, rfl, rfl, rfl, rfl, rfl, fun _ hentry => absurd hentry List.not_mem_nil⟩

end Request

end JobClosure
