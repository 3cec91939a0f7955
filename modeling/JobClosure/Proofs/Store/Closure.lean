import JobClosure.Proofs.Store.Failures
import JobClosure.Proofs.Store.Teardown
import Mathlib

/-!
# What loading with references comes to

A store that follows references loads a module, then the modules that it refers to, and those that they refer to.
The references that are pending and those of the files that are not held are work that every step makes less of
(`ReferenceStep.work_lt`), in whatever circle modules refer to one another and whatever names they declare.

What a store has loaded through calls that answered is closed (`references_closed`). Every reference of a held module
is settled: a held module declares the name, or no search path has a file for it, or a module is held for the file
that was found, or that file was left out and reported (`Settles`). And every held module was asked for by a call, or
was found for a reference of a held module (`Wanted`). In the middle of loading both are true but for the references
that are still pending, which is what every single step preserves (`Loading.Sound`).
-/

namespace JobClosure

namespace Store

open Relation (ReflTransGen)

/-! ## Work -/

/-- The references of the module that can be read at a place. -/
def referencesAt (s : Store) (place : List String) : List String :=
  match s.files.readModule (.ofPlace place) with
  | .ok m => m.references
  | .error _ => []

/-- The number of references in files for which no module is held. -/
def unheldReferences (s : Store) : Nat :=
  (s.files.entries.map fun entry => if s.isUnheld entry.1 then (s.referencesAt entry.1).length else 0).sum

/-- The number of references that are pending or may come to be. -/
def Loading.work (a : Loading) : Nat := a.2.length + a.1.unheldReferences

theorem sum_map_add_le {α : Type} {f g : α → Nat} {xs : List α} {x : α} {k : Nat} (hx : x ∈ xs)
    (hle : ∀ y, g y ≤ f y) (hstep : g x + k ≤ f x) : (xs.map g).sum + k ≤ (xs.map f).sum := by
  induction xs with
  | nil => exact absurd hx List.not_mem_nil
  | cons y ys ih =>
    rw [List.map_cons, List.map_cons, List.sum_cons, List.sum_cons]
    rcases List.mem_cons.mp hx with rfl | hx
    · have hrest : (ys.map g).sum ≤ (ys.map f).sum := List.sum_le_sum fun z _ => hle z
      omega
    · have hrest := ih hx
      have hy := hle y
      omega

/-- A module that is held takes its references from those of the files that are not. -/
theorem unheldReferences_hold {s : Store} {place : Path} {m : Module} (hresolved : place.resolve = place)
    (hfree : s.holds place = false) (hm : s.files.readModule place = .ok m) :
    (s.hold place m).unheldReferences + m.references.length ≤ s.unheldReferences := by
  -- the file of the module is one of the entries: it was counted before, and it is not counted after
  obtain ⟨content, hentry⟩ := FileTree.mem_entries_of_readModule hm
  have hplace : Path.ofPlace place.resolve.parts = place := by rw [Path.ofPlace_parts_resolve, hresolved]
  have hreferences : s.referencesAt place.resolve.parts = m.references := by
    rw [referencesAt, hplace, hm]
  have hunheld : s.isUnheld place.resolve.parts = true := by
    rw [← hplace] at hfree
    exact isUnheld_of_holds_eq_false hfree
  have hheld : (s.hold place m).isUnheld place.resolve.parts = false := by
    have hself := @isUnheld_hold_self s place.resolve.parts m
    rwa [hplace] at hself
  refine sum_map_add_le hentry (fun entry => ?_) ?_
  · show (if (s.hold place m).isUnheld entry.1 then (s.referencesAt entry.1).length else 0) ≤ _
    split
    · rename_i hstill
      rw [if_pos (isUnheld_of_hold hstill)]
    · exact Nat.zero_le _
  · dsimp only
    rw [if_neg (by rw [hheld]; exact Bool.false_ne_true), if_pos hunheld, hreferences, Nat.zero_add]

/-- **Every step leaves less work.** -/
theorem ReferenceStep.work_lt {a b : Loading} (h : ReferenceStep a b) : b.work < a.work := by
  cases h with
  | known hp =>
    simp only [Loading.work, List.length_cons]
    omega
  | loaded hp hm =>
    obtain ⟨hresolved, hfree⟩ := missing?_eq_some hp
    have hhold := unheldReferences_hold hresolved hfree hm
    simp only [Loading.work, List.length_cons, List.length_append]
    omega
  | @skipped s reference pending place error hp hm hload =>
    have hsame : (s.skip place error).unheldReferences = s.unheldReferences := rfl
    simp only [Loading.work, List.length_cons, hsame]
    omega

/-- A walk of so many steps. -/
inductive ReferenceSteps : Nat → Loading → Loading → Prop
  | refl (a : Loading) : ReferenceSteps 0 a a
  | head {n : Nat} {a b c : Loading} (hstep : ReferenceStep a b) (hrest : ReferenceSteps n b c) :
      ReferenceSteps (n + 1) a c

/-- **No walk has more steps than there is work.** -/
theorem ReferenceSteps.add_work_le {n : Nat} {a b : Loading} (h : ReferenceSteps n a b) : n + b.work ≤ a.work := by
  induction h with
  | refl a => exact Nat.le_of_eq (Nat.zero_add _)
  | head hstep hrest ih =>
    have hlt := hstep.work_lt
    omega

theorem exists_steps {a b : Loading} (h : ReflTransGen ReferenceStep a b) : ∃ n, ReferenceSteps n a b := by
  induction h using ReflTransGen.head_induction_on with
  | refl => exact ⟨0, .refl _⟩
  | head hstep _ ih =>
    obtain ⟨n, hn⟩ := ih
    exact ⟨n + 1, .head hstep hn⟩

/-! ## Calls -/

/-- What makes a store load modules. -/
inductive LoadCall
  | add (path : Path)
  /-- Load a module if that is possible. -/
  | add? (path : Path)
  | select (hints : List String) (exclude : Bool)

def LoadCall.action : LoadCall → Action
  | .add path => .add path
  | .add? path => .add? path
  | .select hints exclude => .select hints exclude

/-- A call asks for its path, or for the paths that match its hints. -/
def LoadCall.Asks (files : FileTree) (searchPaths : List Path) (path : Path) : LoadCall → Prop
  | .add given | .add? given => path = given
  | .select hints exclude => ∃ paths, files.selectModules searchPaths hints exclude = .ok paths ∧ path ∈ paths

/-- The store after some calls, if all of them answer. -/
def load (s : Store) : List LoadCall → Except Error Store
  | [] => .ok s
  | call :: rest =>
    match s.perform call.action with
    | (.error error, _) => .error error
    | (.ok _, s) => s.load rest

/-- A step of loading, where some paths are asked for. -/
inductive LoadStep (asked : Path → Prop) : Loading → Loading → Prop
  | opened {s : Store} {path : Path} {m : Module} (hasked : asked path) (hfree : s.handleOf? path.resolve = none)
      (hm : s.files.readModule path.resolve = .ok m) :
      LoadStep asked (s, []) (s.hold path.resolve m, m.references)
  | leftOut {s : Store} {path : Path} {error : Error} (hm : s.files.readModule path.resolve = .error error) :
      LoadStep asked (s, []) (s.skip path.resolve error, [])
  | reference {a b : Loading} (h : ReferenceStep a b) : LoadStep asked a b

/-- Everything that a store is set up with is the same. -/
structure SameSetup (s s' : Store) : Prop where
  files : s'.files = s.files
  searchPaths : s'.searchPaths = s.searchPaths
  followReferences : s'.followReferences = s.followReferences
  closed : s'.closed = s.closed

variable {asked : Path → Prop}

theorem SameSetup.trans {a b c : Store} (hab : a.SameSetup b) (hbc : b.SameSetup c) : a.SameSetup c :=
  ⟨hbc.files.trans hab.files, hbc.searchPaths.trans hab.searchPaths,
    hbc.followReferences.trans hab.followReferences, hbc.closed.trans hab.closed⟩

theorem LoadStep.sameSetup {a b : Loading} (h : LoadStep asked a b) : a.1.SameSetup b.1 := by
  cases h with
  | opened hasked hfree hm => exact ⟨rfl, rfl, rfl, rfl⟩
  | leftOut hm => exact ⟨rfl, rfl, rfl, rfl⟩
  | reference h =>
    cases h with
    | known hp => exact ⟨rfl, rfl, rfl, rfl⟩
    | loaded hp hm => exact ⟨rfl, rfl, rfl, rfl⟩
    | skipped hp hm hload => exact ⟨rfl, rfl, rfl, rfl⟩

theorem sameSetup_of_steps {a b : Loading} (h : ReflTransGen (LoadStep asked) a b) : a.1.SameSetup b.1 := by
  induction h with
  | refl => exact ⟨rfl, rfl, rfl, rfl⟩
  | tail _ hstep ih => exact ih.trans hstep.sameSetup

/-- Loading references that succeeds is a walk to the end. -/
theorem steps_of_loadReferences {s s' : Store} {pending : List String}
    (h : s.loadReferences pending = (.ok (), s')) : ReflTransGen (LoadStep asked) (s, pending) (s', []) := by
  obtain ⟨⟨last, rest⟩, hsteps, hend⟩ := exists_last s pending
  have hlast := (loadReferences_of_steps hsteps).symm.trans h
  rcases hend with rfl | hstuck
  · rw [loadReferences_nil] at hlast
    obtain ⟨-, rfl⟩ := Prod.mk.inj hlast
    exact ReflTransGen.mono (fun _ _ => LoadStep.reference) _ _ hsteps
  · obtain ⟨error, herror, -⟩ := hstuck.exists_error
    exact nomatch (Prod.mk.inj (herror.symm.trans hlast)).1

variable {s s' : Store} {path : Path}

theorem steps_of_openAt {handle : Nat} (hfollow : s.followReferences = true) (hasked : asked path)
    (hfree : s.handleOf? path.resolve = none) (h : s.openAt path.resolve = (.ok handle, s')) :
    ReflTransGen (LoadStep asked) (s, []) (s', []) := by
  unfold openAt at h
  split at h
  · exact nomatch (Prod.mk.inj h).1
  · rename_i m hm
    rw [if_pos hfollow] at h
    cases hload : (s.hold path.resolve m).loadReferences m.references with
    | mk result loaded =>
      rw [hload] at h
      obtain ⟨hresult, rfl⟩ := Prod.mk.inj h
      cases result with
      | error error => exact nomatch hresult
      | ok _ => exact .head (.opened hasked hfree hm) (steps_of_loadReferences hload)

/-- **A module that is added** is added in steps. -/
theorem steps_of_add {handle : Nat} (hopen : s.closed = false) (hfollow : s.followReferences = true)
    (hasked : asked path) (h : s.add path = (.ok handle, s')) :
    ReflTransGen (LoadStep asked) (s, []) (s', []) := by
  cases hnull : path.hasNull with
  | true => exact nomatch (Prod.mk.inj ((add_of_hasNull hopen hnull).symm.trans h)).1
  | false =>
    cases hheld : s.handleOf? path.resolve with
    | some held =>
      obtain ⟨-, rfl⟩ := Prod.mk.inj ((add_of_held hopen hnull hheld).symm.trans h)
      exact .refl
    | none => exact steps_of_openAt hfollow hasked hheld ((add_of_free hopen hnull hheld).symm.trans h)

/-- **A wish that is answered** is answered in steps. -/
theorem steps_of_wish {answer : Option Nat} (hopen : s.closed = false) (hfollow : s.followReferences = true)
    (hasked : asked path) (h : s.add? path = (.ok answer, s')) :
    ReflTransGen (LoadStep asked) (s, []) (s', []) := by
  cases answer with
  | none =>
    obtain ⟨error, hm, -, rfl⟩ := skip_of_wish hopen h
    exact .single (.leftOut hm)
  | some handle =>
    unfold add? at h
    split at h
    · rename_i found t hadd
      obtain ⟨-, rfl⟩ := Prod.mk.inj h
      exact steps_of_add hopen hfollow hasked hadd
    · split at h
      · exact nomatch (Prod.mk.inj h).1
      · exact nomatch (Prod.mk.inj h).1

/-- **Wishes that are answered** are answered one after the other. -/
theorem steps_of_wishes {paths : List Path} {handles : List Nat} (hopen : s.closed = false)
    (hfollow : s.followReferences = true) (hasked : ∀ path ∈ paths, asked path)
    (h : s.addAll paths = (.ok handles, s')) : ReflTransGen (LoadStep asked) (s, []) (s', []) := by
  induction paths generalizing s handles with
  | nil =>
    obtain ⟨-, rfl⟩ := Prod.mk.inj h
    exact .refl
  | cons path rest ih =>
    obtain ⟨hpath, hrest⟩ := List.forall_mem_cons.mp hasked
    unfold addAll at h
    split at h
    · exact nomatch (Prod.mk.inj h).1
    · rename_i answer t hadd
      have hfirst := steps_of_wish hopen hfollow hpath hadd
      have hsetup := sameSetup_of_steps hfirst
      cases hmore : t.addAll rest with
      | mk result last =>
        rw [hmore] at h
        obtain ⟨hresult, rfl⟩ := Prod.mk.inj h
        cases result with
        | error error => exact nomatch hresult
        | ok more =>
          exact hfirst.trans (ih (hsetup.closed.trans hopen) (hsetup.followReferences.trans hfollow) hrest hmore)

/-- **A call that is answered** is answered in steps. -/
theorem steps_of_perform {call : LoadCall} {handles : List Nat} (hopen : s.closed = false)
    (hfollow : s.followReferences = true) (hasked : ∀ path, call.Asks s.files s.searchPaths path → asked path)
    (h : s.perform call.action = (.ok handles, s')) : ReflTransGen (LoadStep asked) (s, []) (s', []) := by
  cases call with
  | add path =>
    obtain ⟨hresult, hstore⟩ := Prod.mk.inj h
    obtain ⟨handle, hhandle, -⟩ := map_eq_ok hresult
    exact steps_of_add hopen hfollow (hasked path rfl) (Prod.ext hhandle hstore)
  | add? path =>
    obtain ⟨hresult, hstore⟩ := Prod.mk.inj h
    obtain ⟨answer, hanswer, -⟩ := map_eq_ok hresult
    exact steps_of_wish hopen hfollow (hasked path rfl) (Prod.ext hanswer hstore)
  | select hints exclude =>
    have h : s.select hints exclude = (.ok handles, s') := h
    unfold select at h
    split at h
    · exact nomatch (Prod.mk.inj h).1
    · rename_i paths hpaths
      have hselected : ∀ path ∈ paths, asked path := fun path hpath => hasked path ⟨paths, hpaths, hpath⟩
      split at h
      · exact nomatch (Prod.mk.inj h).1
      · rename_i found t hall
        split at h
        · exact nomatch (Prod.mk.inj h).1
        · obtain ⟨-, rfl⟩ := Prod.mk.inj h
          exact steps_of_wishes hopen hfollow hselected hall

/-- **Calls that are all answered** are answered in steps. -/
theorem steps_of_load {calls : List LoadCall} (hopen : s.closed = false) (hfollow : s.followReferences = true)
    (hasked : ∀ call ∈ calls, ∀ path, call.Asks s.files s.searchPaths path → asked path)
    (h : s.load calls = .ok s') : ReflTransGen (LoadStep asked) (s, []) (s', []) := by
  induction calls generalizing s with
  | nil =>
    obtain rfl := Except.ok.inj h
    exact .refl
  | cons call rest ih =>
    obtain ⟨hcall, hrest⟩ := List.forall_mem_cons.mp hasked
    unfold load at h
    split at h
    · exact nomatch h
    · rename_i handles t hperform
      have hfirst := steps_of_perform hopen hfollow hcall hperform
      have hsetup := sameSetup_of_steps hfirst
      rw [← hsetup.files, ← hsetup.searchPaths] at hrest
      exact hfirst.trans (ih (hsetup.closed.trans hopen) (hsetup.followReferences.trans hfollow) hrest h)

/-! ## What is held, and why -/

/-- The module that is held for a place. -/
def HoldsModule (s : Store) (place : Path) (m : Module) : Prop :=
  ∃ handle, (place, handle) ∈ s.held ∧ s.module? handle = some m

theorem mem_modules_iff {m : Module} : m ∈ s.modules ↔ ∃ place, s.HoldsModule place m := by
  rw [modules, List.mem_filterMap]
  constructor
  · rintro ⟨handle, hhandle, hm⟩
    obtain ⟨⟨place, handle⟩, hentry, rfl⟩ := List.mem_map.mp hhandle
    exact ⟨place, handle, hentry, hm⟩
  · rintro ⟨place, handle, hentry, hm⟩
    exact ⟨handle, List.mem_map_of_mem hentry, hm⟩

/-- What becomes of a reference. -/
inductive Settles (s : Store) (reference : String) : Prop
  /-- A held module declares the name. -/
  | declared {m : Module} (hm : m ∈ s.modules) (hname : m.name = reference)
  /-- No search path has a file for it. -/
  | nowhere (hfind : s.files.findModule? reference s.searchPaths = .ok none)
  /-- A module is held for the file that is found, whatever name it declares. -/
  | held {path : Path} {m : Module} (hfind : s.files.findModule? reference s.searchPaths = .ok (some path))
      (hm : s.HoldsModule path.resolve m)
  /-- The file that is found cannot be loaded, and a diagnostic says so. -/
  | leftOut {path : Path} {error : Error} (hfind : s.files.findModule? reference s.searchPaths = .ok (some path))
      (hm : s.files.readModule path.resolve = .error error)
      (hreported : skipped path.resolve error ∈ s.diagnostics)

/-- A place is asked for, or it is found for a reference of a module that is held for such a place. -/
inductive Wanted (asked : Path → Prop) (s : Store) : Path → Prop
  | asked {path : Path} (hasked : asked path) : Wanted asked s path.resolve
  | found {place path : Path} {m : Module} {reference : String} (hplace : Wanted asked s place)
      (hm : s.HoldsModule place m) (hreference : reference ∈ m.references)
      (hfind : s.files.findModule? reference s.searchPaths = .ok (some path)) : Wanted asked s path.resolve

/-- `s'` has what `s` has: the files and search paths, the modules that are held, and what was reported. -/
structure Continues (s s' : Store) : Prop where
  files : s'.files = s.files
  searchPaths : s'.searchPaths = s.searchPaths
  holds : ∀ {place m}, s.HoldsModule place m → s'.HoldsModule place m
  reports : s.diagnostics ⊆ s'.diagnostics

theorem continues_refl (s : Store) : s.Continues s := ⟨rfl, rfl, id, List.Subset.refl _⟩

theorem continues_skip (s : Store) (place : Path) (error : Error) : s.Continues (s.skip place error) :=
  ⟨rfl, rfl, id, List.subset_append_left _ _⟩

theorem continues_hold (s : Store) (place : Path) (m : Module) : s.Continues (s.hold place m) := by
  have hextends := extends_hold s place m
  refine ⟨rfl, rfl, ?_, List.Subset.refl _⟩
  rintro other held ⟨handle, hentry, hm⟩
  exact ⟨handle, hextends.held.subset hentry, hextends.module? hm⟩

theorem Settles.mono {reference : String} (h : s.Settles reference) (hcontinues : s.Continues s') :
    s'.Settles reference := by
  have hfind : s'.files.findModule? reference s'.searchPaths = s.files.findModule? reference s.searchPaths := by
    rw [hcontinues.files, hcontinues.searchPaths]
  cases h with
  | declared hm hname =>
    obtain ⟨place, hplace⟩ := mem_modules_iff.mp hm
    exact .declared (mem_modules_iff.mpr ⟨place, hcontinues.holds hplace⟩) hname
  | nowhere hnone => exact .nowhere (hfind.trans hnone)
  | held hfound hm => exact .held (hfind.trans hfound) (hcontinues.holds hm)
  | leftOut hfound hm hreported =>
    exact .leftOut (hfind.trans hfound) (hcontinues.files ▸ hm) (hcontinues.reports hreported)

theorem Wanted.mono {place : Path} (h : Wanted asked s place) (hcontinues : s.Continues s') :
    Wanted asked s' place := by
  induction h with
  | asked hasked => exact .asked hasked
  | found hplace hm hreference hfind ih =>
    refine .found ih (hcontinues.holds hm) hreference ?_
    rw [hcontinues.files, hcontinues.searchPaths, hfind]

/-! ## In the middle of loading -/

/-- Every handle of a held module is one of a module that was opened. -/
def ValidHandles (s : Store) : Prop := ∀ entry ∈ s.held, entry.2 < s.openCount

/-- What is true in the middle of loading: the references of held modules are settled but for those that are pending,
and whatever is held is wanted. -/
structure Loading.Sound (asked : Path → Prop) (a : Loading) : Prop where
  valid : a.1.ValidHandles
  pending : ∀ reference ∈ a.2, ∃ place m, a.1.HoldsModule place m ∧ reference ∈ m.references
  settled : ∀ place m, a.1.HoldsModule place m →
    ∀ reference ∈ m.references, reference ∈ a.2 ∨ a.1.Settles reference
  wanted : ∀ place m, a.1.HoldsModule place m → Wanted asked a.1 place

theorem holdsModule_hold_iff (hvalid : s.ValidHandles) {place other : Path} {m held : Module} :
    (s.hold place m).HoldsModule other held ↔ s.HoldsModule other held ∨ other = place ∧ held = m := by
  constructor
  · rintro ⟨handle, hentry, hm⟩
    rcases List.mem_append.mp hentry with hentry | hentry
    · have hlt : handle < s.openCount := hvalid _ hentry
      rw [module?, hold, List.getElem?_append_left hlt] at hm
      exact .inl ⟨handle, hentry, hm⟩
    · obtain ⟨rfl, rfl⟩ := Prod.mk.inj (List.mem_singleton.mp hentry)
      exact .inr ⟨rfl, Option.some.inj (hm.symm.trans (module?_hold_self s other m))⟩
  · rintro (hheld | ⟨rfl, rfl⟩)
    · exact (continues_hold s place m).holds hheld
    · exact ⟨s.openCount, List.mem_append_right _ (List.mem_singleton_self _), module?_hold_self s _ _⟩

theorem validHandles_hold (hvalid : s.ValidHandles) (place : Path) (m : Module) : (s.hold place m).ValidHandles := by
  intro entry hentry
  have hcount : (s.hold place m).openCount = s.openCount + 1 := List.length_append
  rw [hcount]
  rcases List.mem_append.mp hentry with hentry | hentry
  · exact Nat.lt_succ_of_lt (hvalid entry hentry)
  · rw [List.mem_singleton.mp hentry]
    exact Nat.lt_succ_self _

/-- A place that is held is held for a module. -/
theorem exists_holdsModule (hvalid : s.ValidHandles) {place : Path} (h : s.holds place = true) :
    ∃ m, s.HoldsModule place m := by
  obtain ⟨handle, hhandle⟩ := Option.isSome_iff_exists.mp h
  have hentry : (place, handle) ∈ s.held := by
    obtain ⟨before, after, hheld, -⟩ := List.lookup_eq_some_iff.mp hhandle
    rw [hheld]
    exact List.mem_append_right _ List.mem_cons_self
  exact ⟨_, handle, hentry, List.getElem?_eq_getElem (hvalid _ hentry)⟩

/-- A reference that needs no loading is settled. -/
theorem settles_of_missing? {reference : String} (hvalid : s.ValidHandles) (h : s.missing? reference = .ok none) :
    s.Settles reference := by
  unfold missing? at h
  split at h
  · rename_i hnamed
    obtain ⟨handle, hhandle⟩ := Option.isSome_iff_exists.mp hnamed
    unfold named? at hhandle
    have hany := List.find?_some hhandle
    obtain ⟨m, hm, hname⟩ := (Option.any_eq_true _ _).mp hany
    have hmem : m ∈ s.modules := List.mem_filterMap.mpr ⟨handle, List.mem_of_find?_eq_some hhandle, hm⟩
    exact .declared hmem (eq_of_beq hname)
  · cases hfind : s.files.findModule? reference s.searchPaths with
    | error fault =>
      rw [hfind] at h
      exact nomatch h
    | ok found =>
      rw [hfind] at h
      cases found with
      | none => exact .nowhere hfind
      | some path =>
        -- a file is found that need not be loaded, so its place is held
        have hheld := Option.filter_eq_none_iff.mp (Except.ok.inj h) path.resolve rfl
        obtain ⟨m, hm⟩ := exists_holdsModule hvalid (show s.holds path.resolve = true by simpa using hheld)
        exact .held hfind hm

/-- A reference that has to be loaded leads to the file that is found for it. -/
theorem exists_found_of_missing? {reference : String} {place : Path} (h : s.missing? reference = .ok (some place)) :
    ∃ path, s.files.findModule? reference s.searchPaths = .ok (some path) ∧ path.resolve = place := by
  unfold missing? at h
  split at h
  · exact nomatch Except.ok.inj h
  · obtain ⟨found, hfound, hplace⟩ := map_eq_ok h
    obtain ⟨hsome, -⟩ := Option.filter_eq_some_iff.mp hplace
    obtain ⟨path, rfl, hresolve⟩ := Option.map_eq_some_iff.mp hsome
    exact ⟨path, hfound, hresolve⟩

/-- **What a step has to do**: it keeps what is there, every module that it holds is wanted and has its references
pending, and a reference that is pending no more is settled. -/
theorem Loading.Sound.next {before after : List String} (h : Loading.Sound asked (s, before))
    (hcontinues : s.Continues s') (hvalid : s'.ValidHandles)
    (hnew : ∀ place m, s'.HoldsModule place m →
      s.HoldsModule place m ∨ m.references ⊆ after ∧ Wanted asked s' place)
    (hpending : ∀ reference ∈ after,
      reference ∈ before ∨ ∃ place m, s'.HoldsModule place m ∧ reference ∈ m.references)
    (hsettled : ∀ reference ∈ before, reference ∈ after ∨ s'.Settles reference) :
    Loading.Sound asked (s', after) where
  valid := hvalid
  pending reference hreference := by
    rcases hpending reference hreference with hold | hheld
    · obtain ⟨place, m, hm, hmem⟩ := h.pending reference hold
      exact ⟨place, m, hcontinues.holds hm, hmem⟩
    · exact hheld
  settled place m hm reference hreference := by
    rcases hnew place m hm with hold | ⟨hall, -⟩
    · rcases h.settled place m hold reference hreference with hopen | hdone
      · exact hsettled reference hopen
      · exact .inr (hdone.mono hcontinues)
    · exact .inl (hall hreference)
  wanted place m hm := by
    rcases hnew place m hm with hold | ⟨-, hwanted⟩
    · exact (h.wanted place m hold).mono hcontinues
    · exact hwanted

/-- A module that is held has its references pending. -/
theorem Loading.Sound.hold {before after : List String} {place : Path} {m : Module}
    (h : Loading.Sound asked (s, before)) (hwanted : Wanted asked s place) (hsubset : after ⊆ before)
    (hsettled : ∀ reference ∈ before, reference ∈ after ∨ (s.hold place m).Settles reference) :
    Loading.Sound asked (s.hold place m, m.references ++ after) := by
  have hcontinues := continues_hold s place m
  have hself : (s.hold place m).HoldsModule place m := (holdsModule_hold_iff h.valid).mpr (.inr ⟨rfl, rfl⟩)
  refine h.next hcontinues (validHandles_hold h.valid place m) ?_ ?_ ?_
  · intro other held hheld
    rcases (holdsModule_hold_iff h.valid).mp hheld with hold | ⟨rfl, rfl⟩
    · exact .inl hold
    · exact .inr ⟨List.subset_append_left _ _, hwanted.mono hcontinues⟩
  · intro reference hreference
    rcases List.mem_append.mp hreference with hnew | hold
    · exact .inr ⟨place, m, hself, hnew⟩
    · exact .inl (hsubset hold)
  · intro reference hreference
    exact (hsettled reference hreference).imp_left (List.mem_append_right _)

/-- **Every step of loading** keeps the references of held modules settled, but for those that are pending. -/
theorem LoadStep.sound {a b : Loading} (hstep : LoadStep asked a b) (h : a.Sound asked) : b.Sound asked := by
  cases hstep with
  | @opened s path m hasked hfree hm =>
    have hhold := h.hold (m := m) (.asked hasked) (List.nil_subset _) nofun
    rwa [List.append_nil] at hhold
  | leftOut hm => exact h.next (continues_skip _ _ _) h.valid (fun _ _ => .inl) nofun nofun
  | reference hstep =>
    cases hstep with
    | known hp =>
      refine h.next (continues_refl _) h.valid (fun _ _ => .inl) (fun _ hmem => .inl (List.mem_cons_of_mem _ hmem)) ?_
      exact List.forall_mem_cons.mpr ⟨.inr (settles_of_missing? h.valid hp), fun _ => .inl⟩
    | @loaded s reference pending place m hp hm =>
      obtain ⟨path, hfind, rfl⟩ := exists_found_of_missing? hp
      obtain ⟨origin, referring, hreferring, hmem⟩ := h.pending reference List.mem_cons_self
      -- some held module has the reference that was pending, and it is wanted itself
      have hwanted := Wanted.found (h.wanted origin referring hreferring) hreferring hmem hfind
      have hself : (s.hold path.resolve m).HoldsModule path.resolve m :=
        (holdsModule_hold_iff h.valid).mpr (.inr ⟨rfl, rfl⟩)
      refine h.hold hwanted (List.subset_cons_self _ _) ?_
      exact List.forall_mem_cons.mpr ⟨.inr (.held hfind hself), fun _ => .inl⟩
    | @skipped s reference pending place error hp hm hload =>
      -- nothing is held for the reference: it is the diagnostic that settles it
      obtain ⟨path, hfind, rfl⟩ := exists_found_of_missing? hp
      refine h.next (continues_skip _ _ _) h.valid (fun _ _ => .inl)
        (fun _ hmem => .inl (List.mem_cons_of_mem _ hmem)) ?_
      have hreported : Store.skipped path.resolve error ∈ (s.skip path.resolve error).diagnostics :=
        List.mem_append_right _ (List.mem_singleton_self _)
      exact List.forall_mem_cons.mpr ⟨.inr (.leftOut hfind hm hreported), fun _ => .inl⟩

theorem sound_of_steps {a b : Loading} (h : ReflTransGen (LoadStep asked) a b) (ha : a.Sound asked) :
    b.Sound asked := by
  induction h with
  | refl => exact ha
  | tail _ hstep ih => exact hstep.sound ih

/-- A store that has just been made holds nothing. -/
theorem sound_new (asked : Path → Prop) (files : FileTree) (searchPaths : List Path) (followReferences : Bool) :
    Loading.Sound asked (new files searchPaths followReferences, []) where
  valid := nofun
  pending := nofun
  settled place m := by
    rintro ⟨handle, hentry, -⟩
    exact nomatch hentry
  wanted place m := by
    rintro ⟨handle, hentry, -⟩
    exact nomatch hentry

/-- The paths that some calls ask for. -/
def Asked (files : FileTree) (searchPaths : List Path) (calls : List LoadCall) (path : Path) : Prop :=
  ∃ call ∈ calls, call.Asks files searchPaths path

/--
**Loading with references comes to an end, and what is loaded is closed.**

A walk over references has at most as many steps as there are references that are pending or stand in files that are
not held. It gets to its end, which is what loading references answers: with nothing pending, or stuck.

Let a new store follow references, and let a number of calls all answer. Then every reference of a held module is
settled, and every held module was asked for or was found for a reference of a module that is held for the same
reason.
-/
theorem references_closed :
    (∀ (s : Store) (pending : List String),
      (∀ n last, ReferenceSteps n (s, pending) last → n ≤ Loading.work (s, pending)) ∧
      ∃ n last, ReferenceSteps n (s, pending) last ∧
        (last.2 = [] ∧ s.loadReferences pending = (.ok (), last.1) ∨
          ∃ error, Stuck last ∧ s.loadReferences pending = (.error error, last.1))) ∧
    ∀ files searchPaths calls s, (new files searchPaths true).load calls = .ok s →
      s.files = files ∧ s.searchPaths = searchPaths ∧
      (∀ m ∈ s.modules, ∀ reference ∈ m.references, s.Settles reference) ∧
      ∀ m ∈ s.modules, ∃ place, s.HoldsModule place m ∧ Wanted (Asked files searchPaths calls) s place := by
  refine ⟨fun s pending => ⟨fun n last hsteps => ?_, ?_⟩, fun files searchPaths calls s h => ?_⟩
  · have hwork := hsteps.add_work_le
    omega
  · obtain ⟨last, hsteps, hend⟩ := exists_last s pending
    obtain ⟨n, hn⟩ := exists_steps hsteps
    refine ⟨n, last, hn, ?_⟩
    have hlast := loadReferences_of_steps hsteps
    rcases hend with hnil | hstuck
    · rw [hnil, loadReferences_nil] at hlast
      exact .inl ⟨hnil, hlast⟩
    · obtain ⟨error, herror, -⟩ := hstuck.exists_error
      exact .inr ⟨error, hstuck, hlast.trans herror⟩
  · have hsteps : ReflTransGen (LoadStep (Asked files searchPaths calls)) (new files searchPaths true, []) (s, []) :=
      steps_of_load rfl rfl (fun call hcall path hasks => ⟨call, hcall, hasks⟩) h
    have hsetup := sameSetup_of_steps hsteps
    have hsound := sound_of_steps hsteps (sound_new _ files searchPaths true)
    refine ⟨hsetup.files, hsetup.searchPaths, fun m hm reference hreference => ?_, fun m hm => ?_⟩
    · obtain ⟨place, hplace⟩ := mem_modules_iff.mp hm
      exact (hsound.settled place m hplace reference hreference).resolve_left List.not_mem_nil
    · obtain ⟨place, hplace⟩ := mem_modules_iff.mp hm
      exact ⟨place, hplace, hsound.wanted place m hplace⟩

end Store

/-! ## A circle

Two modules refer to one another. The file of the second is not named as the module, and the module refers to its
own file. There is no third module. -/

namespace Circle

def root : Path := ⟨["w"], false⟩

def pathA : Path := ⟨["w", "A.jmod"], false⟩

def pathB : Path := ⟨["w", "B.jmod"], false⟩

def textA : String := "(module \"A\" (reference \"B\" \"None\"))"

def textB : String := "(module \"Other\" (reference \"A\" \"B\"))"

def first : Module := { name := "A", path := some pathA, references := ["B", "None"] }

def second : Module := { name := "Other", path := some pathB, references := ["A", "B"] }

def files : FileTree :=
  ⟨[(["w"], .directory), (pathA.parts, .file textA.toUTF8), (pathB.parts, .file textB.toUTF8)]⟩

def store : Store := .new files [root] true

theorem readModule_first : files.readModule pathA = .ok first := by
  have hcontains : files.contains ⟨["w", "A.jsym"], false⟩ = .ok false := rfl
  have hbytes : files.readBytes pathA = .ok textA.toUTF8 := rfl
  exact FileTree.readModule_of_alone rfl hcontains hbytes (by decide) (by cbv) rfl

theorem readModule_second : files.readModule pathB = .ok second := by
  have hcontains : files.contains ⟨["w", "B.jsym"], false⟩ = .ok false := rfl
  have hbytes : files.readBytes pathB = .ok textB.toUTF8 := rfl
  exact FileTree.readModule_of_alone rfl hcontains hbytes (by decide) (by cbv) rfl

def loaded : Store := (store.hold pathA first).hold pathB second

theorem loadReferences_first : (store.hold pathA first).loadReferences first.references = (.ok (), loaded) := by
  have hsecond : (store.hold pathA first).missing? "B" = .ok (some pathB) := by decide +kernel
  have hA : loaded.missing? "A" = .ok none := by decide +kernel
  have hB : loaded.missing? "B" = .ok none := by decide +kernel
  have hNone : loaded.missing? "None" = .ok none := by decide +kernel
  have hread : (store.hold pathA first).files.readModule pathB = .ok second := readModule_second
  have hload : Store.ReferenceStep (store.hold pathA first, first.references) (loaded, ["A", "B", "None"]) :=
    .loaded hsecond hread
  have hrest : loaded.loadReferences ["A", "B", "None"] = (.ok (), loaded) := by
    rw [Store.loadReferences_of_known hA, Store.loadReferences_of_known hB, Store.loadReferences_of_known hNone]
    exact Store.loadReferences_nil loaded
  exact hload.loadReferences_eq.trans hrest

theorem load_first : store.load [.add pathA] = .ok loaded := by
  have hadd : store.add pathA = (.ok 0, loaded) := by
    have hread : store.files.readModule pathA.resolve = .ok first := readModule_first
    rw [Store.add_of_free rfl (by decide) rfl, Store.openAt, hread]
    dsimp only
    have hplace : pathA.resolve = pathA := rfl
    rw [hplace, loadReferences_first]
    rfl
  have hperform : store.perform (.add pathA) = (.ok [0], loaded) := by
    rw [Store.perform, hadd]
    rfl
  rw [Store.load, Store.LoadCall.action, hperform]
  rfl

/-- The circle is closed: a module is held for the file of the second, which declares another name, and there is no
file for the third. -/
theorem circle_closed : store.load [.add pathA] = .ok loaded ∧ loaded.modules = [first, second] ∧
    (∀ reference ∈ ["B", "None", "A"], loaded.Settles reference) ∧
    ∃ place, loaded.HoldsModule place second ∧
      Store.Wanted (Store.Asked files [root] [.add pathA]) loaded place := by
  obtain ⟨-, -, hsettled, hwanted⟩ := Store.references_closed.2 files [root] [.add pathA] loaded load_first
  have hmodules : loaded.modules = [first, second] := rfl
  rw [hmodules] at hsettled hwanted
  refine ⟨load_first, hmodules, ?_, hwanted second (by simp)⟩
  have hfirst := hsettled first (by simp)
  have hsecond := hsettled second (by simp)
  exact List.forall_mem_cons.mpr ⟨hfirst "B" (by simp [first]), List.forall_mem_cons.mpr
    ⟨hfirst "None" (by simp [first]), List.forall_mem_singleton.mpr (hsecond "A" (by simp [second]))⟩⟩

end Circle

end JobClosure
