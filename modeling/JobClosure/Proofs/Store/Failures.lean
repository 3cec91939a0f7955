import JobClosure.Proofs.Metadata.Illegible
import JobClosure.Proofs.Store.Adding
import Mathlib.Logic.Relation

/-!
# What keeps a module from being loaded

A module that cannot be loaded is an error to whoever must have it, and a diagnostic to whoever wished for it; either
way the store holds what it held. That is so for every error of loading. What is no error of loading comes up from
wherever it was met, also from the references of a module that is held by then, and so nothing is left out for it.

The walk over references is told as steps (`ReferenceStep`), each of which finds a module held, loads it or leaves it
out. A walk ends with nothing pending, or it is stuck (`Stuck`): it cannot be asked where a reference leads, or
something illegible stands there. A store raises (`Raises`) for a path with something illegible behind it, or with
references that come to be stuck. Where it does not, failures are contained; where it does, even the wish for a module
is answered with an error (`failures_contained`).
-/

namespace JobClosure

namespace Store

open Relation (ReflTransGen)

/-! ## The walk over references -/

/-- A store and the references that are pending. -/
abbrev Loading := Store × List String

/-- What becomes of the first pending reference, where the walk goes on. -/
inductive ReferenceStep : Loading → Loading → Prop
  | known {s : Store} {reference : String} {pending : List String} (hp : s.missing? reference = .ok none) :
      ReferenceStep (s, reference :: pending) (s, pending)
  | loaded {s : Store} {reference : String} {pending : List String} {place : Path} {m : Module}
      (hp : s.missing? reference = .ok (some place)) (hm : s.files.readModule place = .ok m) :
      ReferenceStep (s, reference :: pending) (s.hold place m, m.references ++ pending)
  | skipped {s : Store} {reference : String} {pending : List String} {place : Path} {error : Error}
      (hp : s.missing? reference = .ok (some place)) (hm : s.files.readModule place = .error error)
      (hload : error.isLoad = true) : ReferenceStep (s, reference :: pending) (s.skip place error, pending)

/-- Where the walk does not go on, though references are pending. -/
inductive Stuck : Loading → Prop
  | question {s : Store} {reference : String} {pending : List String} {fault : StorageFault}
      (hp : s.missing? reference = .error fault) : Stuck (s, reference :: pending)
  | file {s : Store} {reference : String} {pending : List String} {place : Path}
      (hp : s.missing? reference = .ok (some place)) (hfile : s.files.Illegible place) :
      Stuck (s, reference :: pending)

/-- The walk over references comes to a point where it is stuck. -/
def Trips (s : Store) (pending : List String) : Prop :=
  ∃ last, ReflTransGen ReferenceStep (s, pending) last ∧ Stuck last

/-- `s'` is `s` after it left modules out, each for an error of loading, and did nothing else that is reported. -/
structure OnlySkips (s s' : Store) (skips : List (Path × Error)) : Prop where
  files : s'.files = s.files
  closed : s'.closed = s.closed
  diagnostics : s'.diagnostics = s.diagnostics ++ skips.map fun skip => skipped skip.1 skip.2
  log : s'.log = s.log ++ skips.map fun skip => .skippedModule skip.1 skip.2.message
  errors : ∀ skip ∈ skips, s.files.readModule skip.1 = .error skip.2 ∧ skip.2.isLoad = true

namespace OnlySkips

variable {a b c : Store} {skips more : List (Path × Error)}

theorem refl (s : Store) : s.OnlySkips s [] :=
  ⟨rfl, rfl, (List.append_nil _).symm, (List.append_nil _).symm, nofun⟩

theorem trans (hab : a.OnlySkips b skips) (hbc : b.OnlySkips c more) : a.OnlySkips c (skips ++ more) where
  files := hbc.files.trans hab.files
  closed := hbc.closed.trans hab.closed
  diagnostics := by rw [hbc.diagnostics, hab.diagnostics, List.map_append, List.append_assoc]
  log := by rw [hbc.log, hab.log, List.map_append, List.append_assoc]
  errors := by
    intro skip hskip
    rcases List.mem_append.mp hskip with hskip | hskip
    · exact hab.errors skip hskip
    · rw [← hab.files]
      exact hbc.errors skip hskip

theorem hold (s : Store) (place : Path) (m : Module) : s.OnlySkips (s.hold place m) [] :=
  ⟨rfl, rfl, (List.append_nil _).symm, (List.append_nil _).symm, nofun⟩

theorem skip {s : Store} {place : Path} {error : Error} (hm : s.files.readModule place = .error error)
    (hload : error.isLoad = true) : s.OnlySkips (s.skip place error) [(place, error)] := by
  refine ⟨rfl, rfl, rfl, rfl, fun other hother => ?_⟩
  obtain rfl := List.mem_singleton.mp hother
  exact ⟨hm, hload⟩

end OnlySkips

theorem ReferenceStep.onlySkips {a b : Loading} (h : ReferenceStep a b) : ∃ skips, a.1.OnlySkips b.1 skips := by
  cases h with
  | known hp => exact ⟨[], OnlySkips.refl _⟩
  | loaded hp hm => exact ⟨[], OnlySkips.hold _ _ _⟩
  | skipped hp hm hload => exact ⟨_, OnlySkips.skip hm hload⟩

/-- **A walk leaves modules out, and does nothing else that is reported.** -/
theorem onlySkips_of_steps {a b : Loading} (h : ReflTransGen ReferenceStep a b) :
    ∃ skips, a.1.OnlySkips b.1 skips := by
  induction h with
  | refl => exact ⟨[], OnlySkips.refl _⟩
  | tail _ hstep ih =>
    obtain ⟨skips, hskips⟩ := ih
    obtain ⟨more, hmore⟩ := hstep.onlySkips
    exact ⟨skips ++ more, hskips.trans hmore⟩

/-- Loading goes on as it does after a step. -/
theorem ReferenceStep.loadReferences_eq {a b : Loading} (h : ReferenceStep a b) :
    a.1.loadReferences a.2 = b.1.loadReferences b.2 := by
  cases h with
  | known hp => exact loadReferences_of_known hp
  | loaded hp hm => exact loadReferences_of_loaded hp hm
  | skipped hp hm hload => exact loadReferences_of_skipped hp hm hload

theorem loadReferences_of_steps {a b : Loading} (h : ReflTransGen ReferenceStep a b) :
    a.1.loadReferences a.2 = b.1.loadReferences b.2 := by
  induction h with
  | refl => rfl
  | tail _ hstep ih => exact ih.trans hstep.loadReferences_eq

/-- It cannot be asked where a reference leads only if a path is too long. -/
theorem missing?_eq_error {s : Store} {reference : String} {fault : StorageFault}
    (h : s.missing? reference = .error fault) : ∃ long, fault = .nameTooLong long := by
  have hfind : ∀ roots, s.files.findModule? reference roots = .error fault → ∃ long, fault = .nameTooLong long := by
    intro roots
    induction roots with
    | nil => exact nofun
    | cons root rest ih =>
      intro h
      rcases bind_eq_error h with hfile | ⟨there, -, h⟩
      · exact FileTree.isFile_eq_error hfile
      · split at h
        · exact nomatch h
        · exact ih h
  unfold missing? at h
  split at h
  · exact nomatch h
  · exact hfind _ (map_eq_error h)

theorem Stuck.exists_error {a : Loading} (h : Stuck a) :
    ∃ error, a.1.loadReferences a.2 = (.error error, a.1) ∧ error.Raw := by
  cases h with
  | question hp =>
    obtain ⟨long, rfl⟩ := missing?_eq_error hp
    exact ⟨_, loadReferences_of_fault hp, .tooLong long⟩
  | file hp hfile =>
    obtain ⟨error, herror, hraw⟩ := hfile.exists_error
    have hraised : ¬ error.isLoad = true := by
      rw [hraw.isLoad_eq_false]
      exact Bool.false_ne_true
    exact ⟨error, loadReferences_of_raised hp herror hraised, hraw⟩

/-- **Every walk ends**, with nothing pending or stuck. -/
theorem exists_last (s : Store) (pending : List String) :
    ∃ last, ReflTransGen ReferenceStep (s, pending) last ∧ (last.2 = [] ∨ Stuck last) := by
  induction s, pending using loadReferences.induct with
  | case1 s => exact ⟨_, .refl, .inl rfl⟩
  | case2 s reference pending fault hp => exact ⟨_, .refl, .inr (.question hp)⟩
  | case3 s reference pending hp ih =>
    obtain ⟨last, hsteps, hend⟩ := ih
    exact ⟨last, .head (.known hp) hsteps, hend⟩
  | case4 s reference pending place hp m hm ih =>
    obtain ⟨last, hsteps, hend⟩ := ih
    exact ⟨last, .head (.loaded hp hm) hsteps, hend⟩
  | case5 s reference pending place hp error hm hload ih =>
    obtain ⟨last, hsteps, hend⟩ := ih
    exact ⟨last, .head (.skipped hp hm hload) hsteps, hend⟩
  | case6 s reference pending place hp error hm hload =>
    exact ⟨_, .refl, .inr (.file hp (FileTree.illegible_of_readModule hm (by simpa using hload)))⟩

/-- Loading references fails if the walk comes to be stuck. -/
theorem Trips.exists_error {s : Store} {pending : List String} (h : s.Trips pending) :
    ∃ error s', s.loadReferences pending = (.error error, s') ∧ error.Raw := by
  obtain ⟨last, hsteps, hstuck⟩ := h
  obtain ⟨error, herror, hraw⟩ := hstuck.exists_error
  exact ⟨error, last.1, (loadReferences_of_steps hsteps).trans herror, hraw⟩

/-- **Loading references** fails because the walk is stuck, or it leaves modules out and goes on to the end. -/
theorem loadReferences_cases (s : Store) (pending : List String) :
    s.Trips pending ∨ ∃ s' skips, s.loadReferences pending = (.ok (), s') ∧ s.OnlySkips s' skips := by
  obtain ⟨last, hsteps, hnil | hstuck⟩ := exists_last s pending
  · obtain ⟨skips, hskips⟩ := onlySkips_of_steps hsteps
    refine .inr ⟨last.1, skips, (loadReferences_of_steps hsteps).trans ?_, hskips⟩
    rw [hnil, loadReferences_nil]
  · exact .inl ⟨last, hsteps, hstuck⟩

/-! ## One module -/

/-- Adding a path is stopped by something that is no error of loading. -/
inductive Raises (s : Store) (path : Path) : Prop
  | null (hnull : path.hasNull = true)
  | file (hfree : s.handleOf? path.resolve = none) (hfile : s.files.Illegible path.resolve)
  | references (m : Module) (hfree : s.handleOf? path.resolve = none)
      (hm : s.files.readModule path.resolve = .ok m) (hfollow : s.followReferences = true)
      (htrips : (s.hold path.resolve m).Trips m.references)

/-- A path has a module or symbols of its own that cannot be loaded. -/
structure LeavesOut (s : Store) (path : Path) : Prop where
  noNull : path.hasNull = false
  free : s.handleOf? path.resolve = none
  unreadable : s.files.Unreadable path.resolve

variable {s s' : Store} {path : Path}

/-- In an open store a path is added by what stands at its resolved path. -/
theorem add_of_free (hopen : s.closed = false) (hnull : path.hasNull = false)
    (hfree : s.handleOf? path.resolve = none) : s.add path = s.openAt path.resolve := by
  rw [add, hopen, if_neg Bool.false_ne_true, Path.resolved, hnull, if_neg Bool.false_ne_true]
  dsimp only
  rw [hfree]

theorem add_of_held {handle : Nat} (hopen : s.closed = false) (hnull : path.hasNull = false)
    (hheld : s.handleOf? path.resolve = some handle) : s.add path = (.ok handle, s) := by
  rw [add, hopen, if_neg Bool.false_ne_true, Path.resolved, hnull, if_neg Bool.false_ne_true]
  dsimp only
  rw [hheld]

theorem add_of_hasNull (hopen : s.closed = false) (hnull : path.hasNull = true) :
    s.add path = (.error (.storage .nullCharacter), s) := by
  rw [add, hopen, if_neg Bool.false_ne_true, Path.resolved, if_pos hnull]

theorem openAt_of_error {place : Path} {error : Error} (hm : s.files.readModule place = .error error) :
    s.openAt place = (.error error, s) := by
  rw [openAt, hm]

theorem Raises.exists_error (hopen : s.closed = false) (h : s.Raises path) :
    ∃ error s', s.add path = (.error error, s') ∧ error.Raw := by
  cases hnull : path.hasNull with
  | true => exact ⟨_, s, add_of_hasNull hopen hnull, .nullCharacter⟩
  | false =>
    rcases h with htrue | ⟨hfree, hfile⟩ | ⟨m, hfree, hm, hfollow, htrips⟩
    · exact nomatch hnull.symm.trans htrue
    · obtain ⟨error, herror, hraw⟩ := hfile.exists_error
      exact ⟨error, s, by rw [add_of_free hopen hnull hfree, openAt_of_error herror], hraw⟩
    · obtain ⟨error, s', herror, hraw⟩ := htrips.exists_error
      refine ⟨error, s', ?_, hraw⟩
      rw [add_of_free hopen hnull hfree, openAt, hm]
      dsimp only
      rw [if_pos hfollow, herror]
      rfl

/-- **Everything that adding a path to an open store comes to.** -/
theorem add_cases (hopen : s.closed = false) (path : Path) :
    s.Raises path ∨
    (∃ error, s.LeavesOut path ∧ s.add path = (.error error, s) ∧
      s.files.readModule path.resolve = .error error ∧ error.isLoad = true) ∨
    ∃ handle s' skips, s.add path = (.ok handle, s') ∧ s.OnlySkips s' skips := by
  cases hnull : path.hasNull with
  | true => exact .inl (.null hnull)
  | false =>
    cases hfree : s.handleOf? path.resolve with
    | some handle => exact .inr (.inr ⟨handle, s, [], add_of_held hopen hnull hfree, OnlySkips.refl s⟩)
    | none =>
      rw [add_of_free hopen hnull hfree]
      cases hm : s.files.readModule path.resolve with
      | error error =>
        cases hload : error.isLoad with
        | false => exact .inl (.file hfree (FileTree.illegible_of_readModule hm hload))
        | true =>
          have hunreadable := FileTree.unreadable_of_readModule hm hload
          exact .inr (.inl ⟨error, ⟨hnull, hfree, hunreadable⟩, openAt_of_error hm, rfl, hload⟩)
      | ok m =>
        rw [openAt, hm]
        dsimp only
        cases hfollow : s.followReferences with
        | false => exact .inr (.inr ⟨_, _, _, rfl, OnlySkips.hold s _ m⟩)
        | true =>
          rcases loadReferences_cases (s.hold path.resolve m) m.references with htrips | ⟨s', skips, hs', hskips⟩
          · exact .inl (.references m hfree hm hfollow htrips)
          · rw [if_pos rfl, hs']
            exact .inr (.inr ⟨_, _, _, rfl, (OnlySkips.hold s _ m).trans hskips⟩)

/-! ## Modules that are wished for -/

/-- **Everything that the wish for a module comes to** in an open store. -/
theorem add?_cases (hopen : s.closed = false) (path : Path) :
    s.Raises path ∨
    (∃ error, s.LeavesOut path ∧ s.add? path = (.ok none, s.skip path.resolve error) ∧
      s.files.readModule path.resolve = .error error ∧ error.isLoad = true) ∨
    ∃ handle s' skips, ¬ s.LeavesOut path ∧ s.add? path = (.ok (some handle), s') ∧ s.OnlySkips s' skips := by
  rcases add_cases hopen path with hraises | ⟨error, hout, hadd, hm, hload⟩ | ⟨handle, s', skips, hadd, hskips⟩
  · exact .inl hraises
  · refine .inr (.inl ⟨error, hout, ?_, hm, hload⟩)
    rw [add?, hadd]
    dsimp only
    rw [if_pos hload]
  · refine .inr (.inr ⟨handle, s', skips, fun hout => ?_, ?_, hskips⟩)
    · obtain ⟨error, herror, -⟩ := hout.unreadable.exists_error
      rw [add_of_free hopen hout.noNull hout.free, openAt_of_error herror] at hadd
      exact nomatch (Prod.mk.inj hadd).1
    · rw [add?, hadd]

theorem Raises.exists_error_of_wish (hopen : s.closed = false) (h : s.Raises path) :
    ∃ error s', s.add? path = (.error error, s') ∧ error.Raw := by
  obtain ⟨error, s', hadd, hraw⟩ := h.exists_error hopen
  refine ⟨error, s', ?_, hraw⟩
  rw [add?, hadd]
  dsimp only
  rw [hraw.isLoad_eq_false]
  rfl

/-- A wish that is answered leaves the store open, and at most reports what it left out. -/
theorem onlySkips_of_wish {answer : Option Nat} (hopen : s.closed = false) (h : s.add? path = (.ok answer, s')) :
    ∃ skips, s.OnlySkips s' skips := by
  rcases add?_cases hopen path with hraises | ⟨error, -, hout, hm, hload⟩ | ⟨handle, s'', skips, -, hok, hskips⟩
  · obtain ⟨error, s'', herror, -⟩ := hraises.exists_error_of_wish hopen
    exact nomatch (Prod.mk.inj (h.symm.trans herror)).1
  · obtain ⟨-, rfl⟩ := Prod.mk.inj (h.symm.trans hout)
    exact ⟨_, OnlySkips.skip hm hload⟩
  · obtain ⟨-, rfl⟩ := Prod.mk.inj (h.symm.trans hok)
    exact ⟨skips, hskips⟩

/-- Of several paths that are wished for in order, one raises. -/
inductive RaisesAmong : Store → List Path → Prop
  | here {s : Store} {path : Path} {rest : List Path} (h : s.Raises path) : RaisesAmong s (path :: rest)
  | later {s s' : Store} {path : Path} {rest : List Path} {answer : Option Nat}
      (hadd : s.add? path = (.ok answer, s')) (h : RaisesAmong s' rest) : RaisesAmong s (path :: rest)

theorem RaisesAmong.exists_error {paths : List Path} (hopen : s.closed = false) (h : s.RaisesAmong paths) :
    ∃ error s', s.addAll paths = (.error error, s') ∧ error.Raw := by
  induction h with
  | here h =>
    obtain ⟨error, s', hadd, hraw⟩ := h.exists_error_of_wish hopen
    exact ⟨error, s', by rw [addAll, hadd], hraw⟩
  | later hadd h ih =>
    obtain ⟨skips, hskips⟩ := onlySkips_of_wish hopen hadd
    obtain ⟨error, s', hrest, hraw⟩ := ih (hskips.closed.trans hopen)
    refine ⟨error, s', ?_, hraw⟩
    rw [addAll, hadd]
    dsimp only
    rw [hrest]
    rfl

/-- A module that is left out leaves the other modules as they are. -/
theorem leavesOut_skip_iff {place : Path} {error : Error} : (s.skip place error).LeavesOut path ↔ s.LeavesOut path :=
  ⟨fun h => ⟨h.noNull, h.free, h.unreadable⟩, fun h => ⟨h.noNull, h.free, h.unreadable⟩⟩

/-- **Several wishes**: one of them raises, or all are answered and what was left out is reported. No handle is
answered just if every module is left out. -/
theorem addAll_cases (hopen : s.closed = false) (paths : List Path) :
    s.RaisesAmong paths ∨
    ∃ handles s' skips, s.addAll paths = (.ok handles, s') ∧ s.OnlySkips s' skips ∧
      (handles = [] ↔ ∀ path ∈ paths, s.LeavesOut path) := by
  induction paths generalizing s with
  | nil => exact .inr ⟨[], s, [], rfl, OnlySkips.refl s, by simp⟩
  | cons path rest ih =>
    rcases add?_cases hopen path with hraises | ⟨error, hout, hadd, hm, hload⟩ |
      ⟨handle, t, skips, hnot, hadd, hskips⟩
    · exact .inl (.here hraises)
    · -- the path is left out, which changes nothing about the paths that follow
      rcases @ih (s.skip path.resolve error) hopen with hraises | ⟨handles, s', more, hrest, hmore, hiff⟩
      · exact .inl (.later hadd hraises)
      · refine .inr ⟨handles, s', _, ?_, (OnlySkips.skip hm hload).trans hmore, ?_⟩
        · rw [addAll, hadd]
          dsimp only
          rw [hrest]
          rfl
        · rw [hiff, List.forall_mem_cons, and_iff_right hout]
          exact forall₂_congr fun _ _ => leavesOut_skip_iff
    · -- the path is answered by a handle, so that not every module is left out
      rcases ih (hskips.closed.trans hopen) with hraises | ⟨handles, s', more, hrest, hmore, -⟩
      · exact .inl (.later hadd hraises)
      · refine .inr ⟨handle :: handles, s', _, ?_, hskips.trans hmore, ?_⟩
        · rw [addAll, hadd]
          dsimp only
          rw [hrest]
          rfl
        · rw [List.forall_mem_cons]
          exact ⟨fun h => absurd h (List.cons_ne_nil _ _), fun h => absurd h.1 hnot⟩

/-- Selecting modules is stopped by something that is no error of loading: a search path that cannot be asked about,
or one of the selected modules. -/
def SelectionRaises (s : Store) (hints : List String) (exclude : Bool) : Prop :=
  (∃ fault, s.files.selectModules s.searchPaths hints exclude = .error fault) ∨
    ∃ paths, s.files.selectModules s.searchPaths hints exclude = .ok paths ∧ s.RaisesAmong paths

theorem SelectionRaises.exists_error {hints : List String} {exclude : Bool} (hopen : s.closed = false)
    (h : s.SelectionRaises hints exclude) :
    ∃ error s', s.select hints exclude = (.error error, s') ∧ error.isLoad = false := by
  rcases h with ⟨fault, hfault⟩ | ⟨paths, hpaths, hraises⟩
  · exact ⟨_, s, by rw [select, hfault], rfl⟩
  · obtain ⟨error, s', hadd, hraw⟩ := hraises.exists_error hopen
    refine ⟨error, s', ?_, hraw.isLoad_eq_false⟩
    rw [select, hpaths]
    dsimp only
    rw [hadd]

/-- **Everything that selecting modules comes to** in an open store. -/
theorem select_cases (hopen : s.closed = false) (hints : List String) (exclude : Bool) :
    s.SelectionRaises hints exclude ∨
    ∃ paths s' skips, s.files.selectModules s.searchPaths hints exclude = .ok paths ∧ s.OnlySkips s' skips ∧
      ((paths ≠ [] ∧ (∀ path ∈ paths, s.LeavesOut path) ∧
          s.select hints exclude = (.error (.nothingLoaded paths.length), s')) ∨
        ∃ handles, s.select hints exclude = (.ok handles, s')) := by
  cases hpaths : s.files.selectModules s.searchPaths hints exclude with
  | error fault => exact .inl (.inl ⟨fault, hpaths⟩)
  | ok paths =>
    rcases addAll_cases hopen paths with hraises | ⟨handles, s', skips, hadd, hskips, hiff⟩
    · exact .inl (.inr ⟨paths, hpaths, hraises⟩)
    · refine .inr ⟨paths, s', skips, rfl, hskips, ?_⟩
      rw [select, hpaths]
      dsimp only
      rw [hadd]
      dsimp only
      split
      · rename_i hnone
        rw [Bool.and_eq_true, List.isEmpty_iff] at hnone
        exact .inl ⟨by simpa using hnone.2, hiff.mp hnone.1, rfl⟩
      · exact .inr ⟨handles, rfl⟩

/-! ## Containment -/

section

variable (hopen : s.closed = false)
include hopen

/-- The wish for a module is answered with an error just if the store raises for the path. -/
theorem wish_fails_iff : (∃ error s', s.add? path = (.error error, s')) ↔ s.Raises path := by
  refine ⟨?_, fun h => ?_⟩
  · rintro ⟨error, s', h⟩
    rcases add?_cases hopen path with hraises | ⟨_, -, hout, -⟩ | ⟨_, _, _, -, hok, -⟩
    · exact hraises
    · exact nomatch (Prod.mk.inj (h.symm.trans hout)).1
    · exact nomatch (Prod.mk.inj (h.symm.trans hok)).1
  · obtain ⟨error, s', herror, -⟩ := h.exists_error_of_wish hopen
    exact ⟨error, s', herror⟩

/-- A wish that is granted nothing is one for a module that cannot be read. -/
theorem skip_of_wish (h : s.add? path = (.ok none, s')) :
    ∃ error, s.files.readModule path.resolve = .error error ∧ error.isLoad = true ∧ s' = s.skip path.resolve error := by
  rcases add?_cases hopen path with hraises | ⟨error, -, hout, hm, hload⟩ | ⟨_, _, _, -, hok, -⟩
  · obtain ⟨error, t, herror, -⟩ := hraises.exists_error_of_wish hopen
    exact nomatch (Prod.mk.inj (h.symm.trans herror)).1
  · exact ⟨error, hm, hload, (Prod.mk.inj (h.symm.trans hout)).2⟩
  · exact nomatch (Prod.mk.inj (h.symm.trans hok)).1

/-- Adding a module fails with an error that is none of loading just if the store raises for the path. -/
theorem add_raises_iff :
    (∃ error s', s.add path = (.error error, s') ∧ error.isLoad = false) ↔ s.Raises path := by
  refine ⟨?_, fun h => ?_⟩
  · rintro ⟨error, s', h, hload⟩
    rcases add_cases hopen path with hraises | ⟨other, -, hout, -, hother⟩ | ⟨_, _, _, hok, -⟩
    · exact hraises
    · obtain rfl := Except.error.inj (Prod.mk.inj (h.symm.trans hout)).1
      exact nomatch hload.symm.trans hother
    · exact nomatch (Prod.mk.inj (h.symm.trans hok)).1
  · obtain ⟨error, s', herror, hraw⟩ := h.exists_error hopen
    exact ⟨error, s', herror, hraw.isLoad_eq_false⟩

/-- It fails with an error of loading only for what stands at the path. -/
theorem eq_of_add_eq_error {error : Error} (h : s.add path = (.error error, s')) (hload : error.isLoad = true) :
    s' = s ∧ s.files.readModule path.resolve = .error error := by
  rcases add_cases hopen path with hraises | ⟨other, -, hout, hm, -⟩ | ⟨_, _, _, hok, -⟩
  · obtain ⟨other, t, hother, hraw⟩ := hraises.exists_error hopen
    obtain rfl := Except.error.inj (Prod.mk.inj (h.symm.trans hother)).1
    cases hload.symm.trans hraw.isLoad_eq_false
  · obtain ⟨herror, rfl⟩ := Prod.mk.inj (h.symm.trans hout)
    obtain rfl := Except.error.inj herror
    exact ⟨rfl, hm⟩
  · cases (Prod.mk.inj (h.symm.trans hok)).1

theorem onlySkips_of_add {handle : Nat} (h : s.add path = (.ok handle, s')) : ∃ skips, s.OnlySkips s' skips := by
  rcases add_cases hopen path with hraises | ⟨_, -, hout, -⟩ | ⟨_, _, skips, hok, hskips⟩
  · obtain ⟨error, t, herror, -⟩ := hraises.exists_error hopen
    exact nomatch (Prod.mk.inj (h.symm.trans herror)).1
  · exact nomatch (Prod.mk.inj (h.symm.trans hout)).1
  · obtain ⟨-, rfl⟩ := Prod.mk.inj (h.symm.trans hok)
    exact ⟨skips, hskips⟩

variable {hints : List String} {exclude : Bool}

/-- A selection fails with an error that is none of loading just if it raises. -/
theorem select_raises_iff :
    (∃ error s', s.select hints exclude = (.error error, s') ∧ error.isLoad = false) ↔
      s.SelectionRaises hints exclude := by
  refine ⟨?_, fun h => h.exists_error hopen⟩
  rintro ⟨error, s', h, hload⟩
  rcases select_cases hopen hints exclude with hraises | ⟨paths, t, skips, -, -, ⟨-, -, hnone⟩ | ⟨handles, hok⟩⟩
  · exact hraises
  · obtain rfl := Except.error.inj (Prod.mk.inj (h.symm.trans hnone)).1
    exact nomatch hload
  · exact nomatch (Prod.mk.inj (h.symm.trans hok)).1

/-- It fails with an error of loading only if all of it is left out. -/
theorem nothingLoaded_of_select {error : Error} (h : s.select hints exclude = (.error error, s'))
    (hload : error.isLoad = true) :
    ∃ paths, s.files.selectModules s.searchPaths hints exclude = .ok paths ∧ paths ≠ [] ∧
      (∀ path ∈ paths, s.LeavesOut path) ∧ error = .nothingLoaded paths.length := by
  rcases select_cases hopen hints exclude with hraises |
    ⟨paths, t, skips, hpaths, -, ⟨hne, hout, hnone⟩ | ⟨handles, hok⟩⟩
  · obtain ⟨other, t, hother, hnot⟩ := hraises.exists_error hopen
    obtain rfl := Except.error.inj (Prod.mk.inj (h.symm.trans hother)).1
    cases hload.symm.trans hnot
  · obtain rfl := Except.error.inj (Prod.mk.inj (h.symm.trans hnone)).1
    exact ⟨paths, hpaths, hne, hout, rfl⟩
  · cases (Prod.mk.inj (h.symm.trans hok)).1

end

/-- A reference that cannot be loaded is passed over. -/
theorem loadReferences_of_unreadable {reference : String} {pending : List String} {place : Path}
    (hp : s.missing? reference = .ok (some place)) (hunreadable : s.files.Unreadable place) :
    ∃ error, s.files.readModule place = .error error ∧
      s.loadReferences (reference :: pending) = (s.skip place error).loadReferences pending := by
  obtain ⟨error, hm, hload⟩ := hunreadable.exists_error
  exact ⟨error, hm, (ReferenceStep.skipped hp hm hload).loadReferences_eq⟩

/-- What loading a path or a selection from an open store can fail with, and what it leaves behind. -/
structure Contained (s : Store) (path : Path) (hints : List String) (exclude : Bool) : Prop where
  /-- The wish for a module is answered with an error just if the store raises for the path. -/
  wish : (∃ error s', s.add? path = (.error error, s')) ↔ s.Raises path
  /-- A module that was wished for in vain is reported, with the error that it is read with. -/
  wished : ∀ s', s.add? path = (.ok none, s') →
    ∃ error, s.files.readModule path.resolve = .error error ∧ error.isLoad = true ∧ s' = s.skip path.resolve error
  /-- A module that must be there fails with an error that is none of loading just if the store raises. -/
  need : (∃ error s', s.add path = (.error error, s') ∧ error.isLoad = false) ↔ s.Raises path
  /-- It fails with an error of loading only for what is read at its own path. The store is then the same. -/
  needed : ∀ error s', s.add path = (.error error, s') → error.isLoad = true →
    s' = s ∧ s.files.readModule path.resolve = .error error
  /-- A module that is referred to and cannot be loaded is reported, and loading goes on with the next one. -/
  reference : ∀ reference pending place, s.missing? reference = .ok (some place) → s.files.Unreadable place →
    ∃ error, s.files.readModule place = .error error ∧
      s.loadReferences (reference :: pending) = (s.skip place error).loadReferences pending
  /-- With a module that is loaded nothing is reported but what was left out. -/
  reported : ∀ handle s', s.add path = (.ok handle, s') → ∃ skips, s.OnlySkips s' skips
  /-- A selection fails with an error that is none of loading just if it raises. -/
  selection : (∃ error s', s.select hints exclude = (.error error, s') ∧ error.isLoad = false) ↔
    s.SelectionRaises hints exclude
  /-- It fails with an error of loading only if it is not empty and all of it is left out. -/
  selected : ∀ error s', s.select hints exclude = (.error error, s') → error.isLoad = true →
    ∃ paths, s.files.selectModules s.searchPaths hints exclude = .ok paths ∧ paths ≠ [] ∧
      (∀ path ∈ paths, s.LeavesOut path) ∧ error = .nothingLoaded paths.length

/-- **Failures to load are contained, except where the store raises.** -/
theorem failures_contained (hopen : s.closed = false) (path : Path) (hints : List String) (exclude : Bool) :
    s.Contained path hints exclude where
  wish := wish_fails_iff hopen
  wished := fun _ => skip_of_wish hopen
  need := add_raises_iff hopen
  needed := fun _ _ => eq_of_add_eq_error hopen
  reference := fun _ _ _ => loadReferences_of_unreadable
  reported := fun _ _ => onlySkips_of_add hopen
  selection := select_raises_iff hopen
  selected := fun _ _ => nothingLoaded_of_select hopen

end Store

/-! ## A file of one byte that begins no character -/

namespace Damaged

def path : Path := ⟨["w", "Bad.jmod"], false⟩

def store : Store where
  files := ⟨[(["w"], .directory), (path.parts, .file ⟨#[0xff]⟩)]⟩

/-- There is no such file. -/
def missing : Path := ⟨["w", "None.jmod"], false⟩

def fault : Text.EncodingFault := ⟨0, 0xff, 1, .invalidStart⟩

theorem decode_byte : Text.decode ⟨#[0xff]⟩ = .error fault := by cbv

theorem readModule_path : store.files.readModule path = .error (.encoding fault) := by
  have hbytes : store.files.readBytes path = .ok ⟨#[0xff]⟩ := rfl
  have htext : store.files.readText path = .error (.encoding fault) := by
    rw [FileTree.readText, hbytes]
    show ((Text.decode ⟨#[0xff]⟩).mapError Error.encoding >>= fun text =>
      Except.ok (String.ofList (Text.unifyLineEnds text.toList))) = _
    rw [decode_byte]
    rfl
  rw [FileTree.readModule, htext]
  rfl

theorem add_path : store.add path = (.error (.encoding fault), store) := by
  rw [Store.add_of_free rfl (by decide) rfl]
  exact Store.openAt_of_error readModule_path

/-- **The wish for a module whose file is not UTF-8 is answered with an error**, and so is the need for it: with an
error that is none of loading. Nothing is reported. -/
theorem wish_fails : store.closed = false ∧ store.add? path = (.error (.encoding fault), store) ∧
    store.add path = (.error (.encoding fault), store) ∧ (Error.encoding fault).isLoad = false := by
  refine ⟨rfl, ?_, add_path, rfl⟩
  rw [Store.add?, add_path]
  rfl

theorem add?_missing : store.add? missing
    = (.ok none, store.skip missing (.cannotOpen missing (.notFound missing))) := by
  have hbytes : store.files.readBytes missing = .error (.notFound missing) := rfl
  have hadd : store.add missing = (.error (.cannotOpen missing (.notFound missing)), store) := by
    rw [Store.add_of_free rfl (by decide) rfl]
    refine Store.openAt_of_error ?_
    show store.files.readModule missing = _
    rw [FileTree.readModule, FileTree.readText_of_bytes_error hbytes]
    rfl
  rw [Store.add?, hadd]
  rfl

/-- The store raises for the damaged file. It does not for a file that is missing. -/
theorem raises_path : store.closed = false ∧ store.Raises path ∧ ¬ store.Raises missing := by
  have hopen : store.closed = false := rfl
  refine ⟨hopen, (Store.failures_contained hopen path [] false).need.mp ⟨_, _, add_path, rfl⟩, fun hraises => ?_⟩
  obtain ⟨error, s', herror⟩ := (Store.failures_contained hopen missing [] false).wish.mpr hraises
  exact nomatch (Prod.mk.inj (add?_missing.symm.trans herror)).1

end Damaged

end JobClosure
