import JobClosure.Proofs.Store.Balance

/-!
# What adding a module leaves in place

Adding a module reads files and writes none. It enters modules behind those that were opened and places
behind those that are held, so whatever a handle or a place stood for before it stands for afterwards
(`Extends`). The handle that is answered belongs to the module of the path: one that is held for it, or one
that was read from its file (`add_eq_ok`).
-/

namespace JobClosure

namespace Store

/-- `s'` is `s` with more modules opened and more places held. -/
structure Extends (s s' : Store) : Prop where
  files : s'.files = s.files
  opened : s.opened <+: s'.opened
  held : s.held <+: s'.held

namespace Extends

variable {a b c : Store}

theorem refl (s : Store) : s.Extends s := ⟨rfl, List.prefix_refl _, List.prefix_refl _⟩

theorem trans (hab : a.Extends b) (hbc : b.Extends c) : a.Extends c where
  files := hbc.files.trans hab.files
  opened := hab.opened.trans hbc.opened
  held := hab.held.trans hbc.held

theorem module? (h : a.Extends b) {handle : Nat} {m : Module} (hm : a.module? handle = some m) :
    b.module? handle = some m := by
  obtain ⟨more, hopened⟩ := h.opened
  rw [Store.module?, ← hopened, List.getElem?_append_left (lt_openCount_of_module? hm)]
  exact hm

theorem handleOf? (h : a.Extends b) {place : Path} {handle : Nat} (hhandle : a.handleOf? place = some handle) :
    b.handleOf? place = some handle := by
  obtain ⟨more, hheld⟩ := h.held
  rw [Store.handleOf?] at hhandle
  rw [Store.handleOf?, ← hheld, List.lookup_append, hhandle, Option.some_or]

end Extends

theorem extends_hold (s : Store) (place : Path) (m : Module) : s.Extends (s.hold place m) :=
  ⟨rfl, List.prefix_append _ _, List.prefix_append _ _⟩

theorem extends_skip (s : Store) (place : Path) (error : Error) : s.Extends (s.skip place error) :=
  ⟨rfl, List.prefix_refl _, List.prefix_refl _⟩

/-- **Loading references** only adds to what is there. -/
theorem extends_loadReferences (s : Store) (pending : List String) : s.Extends (s.loadReferences pending).2 := by
  induction s, pending using loadReferences.induct with
  | case1 s => rw [loadReferences_nil]; exact Extends.refl s
  | case2 s reference pending fault hp => rw [loadReferences_of_fault hp]; exact Extends.refl s
  | case3 s reference pending hp ih => rw [loadReferences_of_known hp]; exact ih
  | case4 s reference pending place hp m hm ih =>
    rw [loadReferences_of_loaded hp hm]
    exact (extends_hold s place m).trans ih
  | case5 s reference pending place hp error hm hload ih =>
    rw [loadReferences_of_skipped hp hm hload]
    exact (extends_skip s place error).trans ih
  | case6 s reference pending place hp error hm hload =>
    rw [loadReferences_of_raised hp hm hload]
    exact Extends.refl s

theorem module?_hold_self (s : Store) (place : Path) (m : Module) : (s.hold place m).module? s.openCount = some m := by
  rw [module?, hold, openCount, List.getElem?_append_right (Nat.le_refl _), Nat.sub_self]
  rfl

theorem handleOf?_hold_self {s : Store} {place : Path} (m : Module) (h : s.handleOf? place = none) :
    (s.hold place m).handleOf? place = some s.openCount := by
  rw [handleOf?] at h
  rw [handleOf?, hold, List.lookup_append, h, Option.none_or, List.lookup_cons, beq_self_eq_true]
  rfl

variable {s s' : Store} {path : Path} {handle : Nat}

/-- A module that is opened is the one that was read, whatever is loaded with it. -/
theorem openAt_eq_ok {place : Path} (hfree : s.handleOf? place = none) (h : s.openAt place = (.ok handle, s')) :
    s.Extends s' ∧ s'.handleOf? place = some handle ∧
      ∃ m, s.files.readModule place = .ok m ∧ s'.module? handle = some m := by
  unfold openAt at h
  cases hm : s.files.readModule place with
  | error error =>
    rw [hm] at h
    exact nomatch (Prod.mk.inj h).1
  | ok m =>
    rw [hm] at h
    dsimp only at h
    have hhold := extends_hold s place m
    have hplace := handleOf?_hold_self m hfree
    have hmodule := module?_hold_self s place m
    -- what is loaded for its references only comes on top of the module itself
    split at h
    · have hload := extends_loadReferences (s.hold place m) m.references
      cases hresult : (s.hold place m).loadReferences m.references with
      | mk result loaded =>
        rw [hresult] at hload h
        obtain ⟨hresult, rfl⟩ := Prod.mk.inj h
        cases result with
        | error error => exact nomatch hresult
        | ok _ =>
          obtain rfl : s.openCount = handle := Except.ok.inj hresult
          exact ⟨hhold.trans hload, hload.handleOf? hplace, m, rfl, hload.module? hmodule⟩
    · obtain ⟨hresult, rfl⟩ := Prod.mk.inj h
      obtain rfl : s.openCount = handle := Except.ok.inj hresult
      exact ⟨hhold, hplace, m, rfl, hmodule⟩

/-- **Adding a module** answers the handle of the module that is held for the path, or of one that was read
from its file. -/
theorem add_eq_ok (h : s.add path = (.ok handle, s')) :
    s.Extends s' ∧ s'.handleOf? path.resolve = some handle ∧
      (s.handleOf? path.resolve = some handle ∨
        ∃ m, s.files.readModule path.resolve = .ok m ∧ s'.module? handle = some m) := by
  unfold add at h
  split at h
  · exact nomatch (Prod.mk.inj h).1
  · split at h
    · exact nomatch (Prod.mk.inj h).1
    · rename_i place hresolved
      obtain rfl : path.resolve = place := by
        unfold Path.resolved at hresolved
        split at hresolved
        · exact nomatch hresolved
        · exact Except.ok.inj hresolved
      cases hhandle : s.handleOf? path.resolve with
      | some found =>
        rw [hhandle] at h
        obtain ⟨hfound, rfl⟩ := Prod.mk.inj h
        obtain rfl : found = handle := Except.ok.inj hfound
        exact ⟨Extends.refl s, hhandle, .inl rfl⟩
      | none =>
        rw [hhandle] at h
        obtain ⟨hextends, hheld, hread⟩ := openAt_eq_ok hhandle h
        exact ⟨hextends, hheld, .inr hread⟩

/-! ## Whatever loading comes to -/

theorem extends_openAt (s : Store) (place : Path) : s.Extends (s.openAt place).2 := by
  unfold openAt
  split
  · exact Extends.refl s
  · rename_i m hm
    split
    · exact (extends_hold s place m).trans (extends_loadReferences _ _)
    · exact extends_hold s place m

theorem extends_add (s : Store) (path : Path) : s.Extends (s.add path).2 := by
  unfold add
  split
  · exact Extends.refl s
  · split
    · exact Extends.refl s
    · split
      · exact Extends.refl s
      · exact extends_openAt s _

theorem extends_add? (s : Store) (path : Path) : s.Extends (s.add? path).2 := by
  have hadd := extends_add s path
  unfold add?
  split
  · rename_i handle s' heq
    rwa [heq] at hadd
  · rename_i error s' heq
    rw [heq] at hadd
    split
    · exact hadd.trans (extends_skip _ _ _)
    · exact hadd

theorem extends_addAll (s : Store) (paths : List Path) : s.Extends (s.addAll paths).2 := by
  induction paths generalizing s with
  | nil => exact Extends.refl s
  | cons path rest ih =>
    have hadd := extends_add? s path
    unfold addAll
    split
    · rename_i error s' heq
      rwa [heq] at hadd
    · rename_i handle s' heq
      rw [heq] at hadd
      exact hadd.trans (ih s')

/-- **Selecting modules** only adds to what is there, also where it fails. -/
theorem extends_select (s : Store) (hints : List String) (exclude : Bool) :
    s.Extends (s.select hints exclude).2 := by
  unfold select
  split
  · exact Extends.refl s
  · rename_i paths hpaths
    have hadd := extends_addAll s paths
    split
    · rename_i error s' heq
      rwa [heq] at hadd
    · rename_i handles s' heq
      rw [heq] at hadd
      split
      · exact hadd
      · exact hadd

end Store

end JobClosure
