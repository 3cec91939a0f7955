import JobClosure.Store.Basic

/-!
# Loading modules

A module is loaded from its resolved path, once. If it cannot be loaded that is an error (`add`) or, where
the module is only wished for, a diagnostic (`add?`). A file that is not UTF-8 is an error either way, and
so is a path that is too long to be asked about.

With its module a store may load the modules it refers to, and those they refer to, depth first: what is
held, and what no search path has, needs no loading. This ends because every step takes a reference away
or holds a file that was not held before (`unheldFiles_hold_lt`).
-/

namespace JobClosure

namespace Store

/-- Whether no module is held for a place of the tree. -/
def isUnheld (s : Store) (place : List String) : Bool :=
  s.held.all fun known => known.1 != Path.ofPlace place

/-- The number of entries of the tree for which no module is held. -/
def unheldFiles (s : Store) : Nat := s.files.entries.countP fun entry => s.isUnheld entry.1

theorem isUnheld_of_hold {s : Store} {path : Path} {m : Module} {place : List String}
    (h : (s.hold path m).isUnheld place = true) : s.isUnheld place = true := by
  simp only [isUnheld, hold, List.all_append, Bool.and_eq_true] at h
  exact h.1

theorem isUnheld_hold_self {s : Store} {place : List String} {m : Module} :
    (s.hold (.ofPlace place) m).isUnheld place = false := by
  simp [isUnheld, hold]

/-- Counting with a stronger condition that one of the elements fails counts less. -/
theorem countP_lt_countP {α : Type} {p q : α → Bool} {xs : List α} {x : α} (hx : x ∈ xs)
    (hpq : ∀ y, p y = true → q y = true) (hp : p x = false) (hq : q x = true) :
    xs.countP p < xs.countP q := by
  induction xs with
  | nil => simp at hx
  | cons y ys ih =>
    have hle : ys.countP p ≤ ys.countP q := List.countP_mono_left fun z _ => hpq z
    rcases List.mem_cons.mp hx with rfl | hx
    · simp only [List.countP_cons, hp, hq]
      simp only [Bool.false_eq_true, if_false, if_true]
      omega
    · have hlt := ih hx
      simp only [List.countP_cons]
      by_cases hy : p y = true
      · rw [if_pos hy, if_pos (hpq y hy)]
        omega
      · rw [if_neg hy]
        omega

/-- Holding a module for a place of the tree leaves fewer places without one. -/
theorem unheldFiles_hold_lt {s : Store} {place : List String} {m : Module} {entry : Entry}
    (hmem : (place, entry) ∈ s.files.entries) (hfree : s.isUnheld place = true) :
    (s.hold (.ofPlace place) m).unheldFiles < s.unheldFiles :=
  countP_lt_countP hmem (fun _ => isUnheld_of_hold) isUnheld_hold_self hfree

theorem isUnheld_of_holds_eq_false {s : Store} {place : List String}
    (h : s.holds (.ofPlace place) = false) : s.isUnheld place = true := by
  simp only [isUnheld, List.all_eq_true, bne_iff_ne, ne_eq]
  intro known hknown heq
  simp only [holds, handleOf?, Option.isSome_eq_false_iff, Option.isNone_iff_eq_none] at h
  rw [List.lookup_eq_none_iff] at h
  have := h known hknown
  simp [heq] at this

/-- Where a reference leads if it has to be loaded: nowhere if a held module has its name, if no search
path has a file for it, or if a module is held for that file. -/
def missing? (s : Store) (reference : String) : Except StorageFault (Option Path) :=
  if (s.named? reference).isSome then .ok none
  else
    (s.files.findModule? reference s.searchPaths).map fun found =>
      (found.map Path.resolve).filter fun place => !s.holds place

/-- A reference that has to be loaded leads to a resolved path for which no module is held. -/
theorem missing?_eq_some {s : Store} {reference : String} {place : Path}
    (h : s.missing? reference = .ok (some place)) : place.resolve = place ∧ s.holds place = false := by
  unfold missing? at h
  split at h
  · cases h
  · cases hf : s.files.findModule? reference s.searchPaths with
    | error fault =>
      rw [hf] at h
      exact nomatch h
    | ok found =>
      rw [hf] at h
      obtain ⟨hfound, hfree⟩ := Option.filter_eq_some_iff.mp (Except.ok.inj h)
      obtain ⟨path, -, rfl⟩ := Option.map_eq_some_iff.mp hfound
      exact ⟨Path.resolve_resolve path, by simpa using hfree⟩

/-- Loading a missing module leaves fewer places without one. -/
theorem unheldFiles_lt_of_missing? {s : Store} {reference : String} {place : Path} {m : Module}
    (hp : s.missing? reference = .ok (some place)) (hm : s.files.readModule place = .ok m) :
    (s.hold place m).unheldFiles < s.unheldFiles := by
  obtain ⟨hresolved, hfree⟩ := missing?_eq_some hp
  obtain ⟨content, hmem⟩ := FileTree.mem_entries_of_readModule hm
  have hplace : Path.ofPlace place.resolve.parts = place := by
    rw [Path.ofPlace_parts_resolve, hresolved]
  rw [← hplace] at hfree ⊢
  exact unheldFiles_hold_lt hmem (isUnheld_of_holds_eq_false hfree)

/-- Loads the pending references and what they refer to. -/
def loadReferences (s : Store) (pending : List String) : Except Error Unit × Store :=
  match pending with
  | [] => (.ok (), s)
  | reference :: pending =>
    match _hp : s.missing? reference with
    | .error fault => (.error (.storage fault), s)
    | .ok none => s.loadReferences pending
    | .ok (some place) =>
      match _hm : s.files.readModule place with
      | .ok m => (s.hold place m).loadReferences (m.references ++ pending)
      | .error error =>
        if error.isLoad then (s.skip place error).loadReferences pending else (.error error, s)
termination_by (s.unheldFiles, pending.length)
decreasing_by
  · exact Prod.Lex.right _ (by simp)
  · exact Prod.Lex.left _ _ (unheldFiles_lt_of_missing? _hp _hm)
  · exact Prod.Lex.right _ (by simp)

theorem loadReferences_nil (s : Store) : s.loadReferences [] = (.ok (), s) := by rw [loadReferences]

/-- What loading a reference does, without the facts that its termination needs. -/
theorem loadReferences_cons (s : Store) (reference : String) (pending : List String) :
    s.loadReferences (reference :: pending) =
      match s.missing? reference with
      | .error fault => (.error (.storage fault), s)
      | .ok none => s.loadReferences pending
      | .ok (some place) =>
        match s.files.readModule place with
        | .ok m => (s.hold place m).loadReferences (m.references ++ pending)
        | .error error =>
          if error.isLoad then (s.skip place error).loadReferences pending else (.error error, s) := by
  rw [loadReferences]
  split
  · rename_i fault hp
    rw [hp]
  · rename_i hp
    rw [hp]
  · rename_i place hp
    rw [hp]
    dsimp only
    split
    · rename_i m hm
      rw [hm]
    · rename_i error hm
      rw [hm]

variable {s : Store} {reference : String} {pending : List String} {place : Path}

theorem loadReferences_of_fault {fault : StorageFault} (hp : s.missing? reference = .error fault) :
    s.loadReferences (reference :: pending) = (.error (.storage fault), s) := by
  rw [loadReferences_cons, hp]

theorem loadReferences_of_known (hp : s.missing? reference = .ok none) :
    s.loadReferences (reference :: pending) = s.loadReferences pending := by
  rw [loadReferences_cons, hp]

theorem loadReferences_of_loaded {m : Module} (hp : s.missing? reference = .ok (some place))
    (hm : s.files.readModule place = .ok m) :
    s.loadReferences (reference :: pending) = (s.hold place m).loadReferences (m.references ++ pending) := by
  rw [loadReferences_cons, hp]
  dsimp only
  rw [hm]

theorem loadReferences_of_skipped {error : Error} (hp : s.missing? reference = .ok (some place))
    (hm : s.files.readModule place = .error error) (hload : error.isLoad = true) :
    s.loadReferences (reference :: pending) = (s.skip place error).loadReferences pending := by
  rw [loadReferences_cons, hp]
  dsimp only
  rw [hm]
  exact if_pos hload

theorem loadReferences_of_raised {error : Error} (hp : s.missing? reference = .ok (some place))
    (hm : s.files.readModule place = .error error) (hload : ¬ error.isLoad = true) :
    s.loadReferences (reference :: pending) = (.error error, s) := by
  rw [loadReferences_cons, hp]
  dsimp only
  rw [hm]
  exact if_neg hload

/-- Loads the module at a resolved path, and what it refers to if references are followed. -/
def openAt (s : Store) (place : Path) : Except Error Nat × Store :=
  match s.files.readModule place with
  | .error error => (.error error, s)
  | .ok m =>
    if s.followReferences then
      let (result, s') := (s.hold place m).loadReferences m.references
      (result.map fun _ => s.openCount, s')
    else (.ok s.openCount, s.hold place m)

/-- Loads the module at a path, unless it is held already, and answers its handle. -/
def add (s : Store) (path : Path) : Except Error Nat × Store :=
  if s.closed then (.error .storeClosed, s)
  else
    match path.resolved with
    | .error fault => (.error (.storage fault), s)
    | .ok place =>
      match s.handleOf? place with
      | some handle => (.ok handle, s)
      | none => s.openAt place

/-- Loads the module at a path if that is possible. A module that cannot be loaded is left out. -/
def add? (s : Store) (path : Path) : Except Error (Option Nat) × Store :=
  match s.add path with
  | (.ok handle, s) => (.ok (some handle), s)
  | (.error error, s) =>
    if error.isLoad then (.ok none, s.skip path.resolve error) else (.error error, s)

/-- Loads the modules at some paths as far as that is possible. -/
def addAll (s : Store) : List Path → Except Error (List Nat) × Store
  | [] => (.ok [], s)
  | path :: rest =>
    match s.add? path with
    | (.error error, s) => (.error error, s)
    | (.ok handle, s) =>
      let (more, s) := s.addAll rest
      (more.map (handle.toList ++ ·), s)

/-- Loads the modules on the search paths that match the hints, or with `exclude` those that do not. It is
an error if there are such modules and none can be loaded. -/
def select (s : Store) (hints : List String) (exclude : Bool) : Except Error (List Nat) × Store :=
  match s.files.selectModules s.searchPaths hints exclude with
  | .error fault => (.error (.storage fault), s)
  | .ok paths =>
    match s.addAll paths with
    | (.error error, s) => (.error error, s)
    | (.ok handles, s) =>
      if handles.isEmpty && !paths.isEmpty then (.error (.nothingLoaded paths.length), s)
      else (.ok handles, s)

end Store

end JobClosure
