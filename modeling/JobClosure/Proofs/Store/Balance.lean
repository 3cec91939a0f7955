import JobClosure.Proofs.Except
import JobClosure.Store.Loading
import JobClosure.Store.Saving
import Mathlib.Data.List.Nodup

/-!
# The books of a store

A store counts what it opens and what it releases, and keeps what is neither. Its books are **balanced**
when these three agree: every opened module is held or released and never both, and no place is held twice.

Nearly every operation leaves the books alone. Two change them, and each changes both sides at once. Loading
enters a module as opened and as held (`Balanced.hold`), and it does so only for a place that is not held;
releasing takes one entry away and counts it (`Balanced.release`), and it does nothing to a module that is
released already. A module that is changed in its place stays released or unreleased (`Balanced.replace`).
The rest of the module is about operations made of these, whichever way they end.

A balanced store that is closed holds nothing and has released everything it ever opened
(`Balanced.released_of_closed`).
-/

namespace JobClosure

/-- Readers make modules that nobody has released, and that know the path they were read from. -/
theorem FileTree.fresh_of_readModule {tree : FileTree} {path : Path} {m : Module}
    (h : tree.readModule path = .ok m) : m.released = false ∧ m.path = some path := by
  obtain ⟨text, -, h⟩ := bind_eq_ok h
  obtain ⟨read, hread, h⟩ := bind_eq_ok h
  obtain ⟨symbols, -, h⟩ := bind_eq_ok h
  obtain rfl := Except.ok.inj h
  obtain ⟨form, -, hform⟩ := bind_eq_ok (mapError_eq_ok hread)
  unfold Module.ofForm at hform
  split at hform
  · obtain ⟨name, -, hform⟩ := bind_eq_ok hform
    obtain ⟨parts, -, hform⟩ := bind_eq_ok hform
    obtain rfl := Except.ok.inj hform
    exact ⟨rfl, rfl⟩
  · exact nomatch hform

/-- Synthesis changes the types of a module only. -/
theorem Module.fresh_of_synthesize {m m' : Module} {index : Option Index} {group : String}
    {items : List Instantiation} {type : TypeDef} (h : m.synthesize index group items = .ok (type, m')) :
    m'.released = m.released ∧ m'.path = m.path := by
  unfold synthesize at h
  split at h
  · exact nomatch h
  · split at h
    · exact nomatch h
    · obtain ⟨-, rfl⟩ := Prod.mk.inj (Except.ok.inj h)
      exact ⟨rfl, rfl⟩

namespace Store

/-- The places for which modules are held. -/
def places (s : Store) : List Path := s.held.map (·.1)

/-- What is opened, what is held and what is released agree. -/
structure Balanced (s : Store) : Prop where
  /-- Whatever was opened is held or was released. -/
  count : s.openCount = s.releaseCount + s.held.length
  places_nodup : s.places.Nodup
  handles_nodup : s.handles.Nodup
  /-- A held module was opened from the place it is held for and is not released. -/
  held : ∀ entry ∈ s.held, ∃ m, s.module? entry.2 = some m ∧ m.released = false
    ∧ m.path = some entry.1 ∧ entry.1.resolve = entry.1
  /-- An opened module that is not released is held. -/
  opened : ∀ handle m, s.module? handle = some m → m.released = false → handle ∈ s.handles
  closed : s.closed = true → s.held = []

theorem Balanced.exists_module {s : Store} (h : s.Balanced) {handle : Nat} (hmem : handle ∈ s.handles) :
    ∃ m, s.module? handle = some m ∧ m.released = false := by
  obtain ⟨entry, hentry, rfl⟩ := List.mem_map.mp hmem
  obtain ⟨m, hm, hreleased, -⟩ := h.held entry hentry
  exact ⟨m, hm, hreleased⟩

/-- A store that has just been made: nothing was opened and nothing released. -/
theorem balanced_of_new {s : Store} (hopened : s.opened = []) (hheld : s.held = [])
    (hcount : s.releaseCount = 0) : s.Balanced where
  count := by rw [openCount, hopened, hheld, hcount]; rfl
  places_nodup := by rw [places, hheld]; exact List.nodup_nil
  handles_nodup := by rw [handles, hheld]; exact List.nodup_nil
  held := by rw [hheld]; exact fun _ hentry => absurd hentry List.not_mem_nil
  opened := by
    intro handle m hm
    rw [module?, hopened] at hm
    exact nomatch hm
  closed := fun _ => hheld

/-- Two stores with the same books: they may differ in files, in what they report and in how they load. -/
structure SameBooks (s s' : Store) : Prop where
  opened : s'.opened = s.opened
  held : s'.held = s.held
  releaseCount : s'.releaseCount = s.releaseCount
  closed : s'.closed = s.closed

theorem SameBooks.balanced {s s' : Store} (same : SameBooks s s') (h : s.Balanced) : s'.Balanced where
  count := by rw [openCount, same.opened, same.releaseCount, same.held]; exact h.count
  places_nodup := by rw [places, same.held]; exact h.places_nodup
  handles_nodup := by rw [handles, same.held]; exact h.handles_nodup
  held := by unfold module?; rw [same.held, same.opened]; exact h.held
  opened := by unfold module? handles; rw [same.held, same.opened]; exact h.opened
  closed := by rw [same.closed, same.held]; exact h.closed

/-! ## The operations that change the books -/

theorem lt_openCount_of_module? {s : Store} {handle : Nat} {m : Module} (h : s.module? handle = some m) :
    handle < s.openCount :=
  (List.getElem?_eq_some_iff.mp h).1

theorem not_mem_places_iff {s : Store} {place : Path} : s.holds place = false ↔ place ∉ s.places := by
  unfold holds handleOf? places
  rw [Option.isSome_eq_false_iff, Option.isNone_iff_eq_none, List.lookup_eq_none_iff]
  constructor
  · intro h hmem
    obtain ⟨entry, hentry, rfl⟩ := List.mem_map.mp hmem
    simpa using h entry hentry
  · intro h entry hentry
    rw [bne_iff_ne]
    rintro rfl
    exact h (List.mem_map_of_mem hentry)

/-- **Loading** enters a module as opened and as held. -/
theorem Balanced.hold {s : Store} (h : s.Balanced) {place : Path} {m : Module}
    (hopen : s.closed = false) (hplace : place.resolve = place) (hfree : s.holds place = false)
    (hm : s.files.readModule place = .ok m) : (s.hold place m).Balanced := by
  obtain ⟨hreleased, hpath⟩ := FileTree.fresh_of_readModule hm
  -- the new handle is the number of modules opened so far, so no held entry has it
  have hnew : s.openCount ∉ s.handles := by
    intro hmem
    obtain ⟨m', hm', -⟩ := h.exists_module hmem
    exact Nat.lt_irrefl _ (lt_openCount_of_module? hm')
  have hold_lt : ∀ {handle : Nat}, handle < s.openCount →
      (s.hold place m).module? handle = s.module? handle := fun hlt => List.getElem?_append_left hlt
  have hself : (s.hold place m).module? s.openCount = some m := List.getElem?_concat_length
  refine ⟨?_, ?_, ?_, ?_, ?_, ?_⟩
  · have hcount := h.count
    simp only [openCount, Store.hold, List.length_append, List.length_singleton] at hcount ⊢
    omega
  · rw [places, Store.hold, List.map_append, List.map_singleton]
    exact List.nodup_append.mpr ⟨h.places_nodup, List.nodup_singleton _, fun a ha b hb => by
      obtain rfl := List.mem_singleton.mp hb
      rintro rfl
      exact not_mem_places_iff.mp hfree ha⟩
  · rw [handles, Store.hold, List.map_append, List.map_singleton]
    exact List.nodup_append.mpr ⟨h.handles_nodup, List.nodup_singleton _, fun a ha b hb => by
      obtain rfl := List.mem_singleton.mp hb
      rintro rfl
      exact hnew ha⟩
  · intro entry hentry
    rcases List.mem_append.mp hentry with hentry | hentry
    · obtain ⟨m', hm', hrest⟩ := h.held entry hentry
      exact ⟨m', (hold_lt (lt_openCount_of_module? hm')).trans hm', hrest⟩
    · obtain rfl := List.mem_singleton.mp hentry
      exact ⟨m, hself, hreleased, hpath, hplace⟩
  · intro handle m' hm' hreleased'
    rw [handles, Store.hold, List.map_append, List.map_singleton]
    rcases Nat.lt_or_ge handle s.openCount with hlt | hge
    · rw [hold_lt hlt] at hm'
      exact List.mem_append_left _ (h.opened handle m' hm' hreleased')
    · have hle := lt_openCount_of_module? hm'
      simp only [openCount, Store.hold, List.length_append, List.length_singleton] at hle hge
      obtain rfl : handle = s.opened.length := by omega
      exact List.mem_append_right _ (List.mem_singleton_self _)
  · intro hclosed
    rw [show (s.hold place m).closed = s.closed from rfl, hopen] at hclosed
    cases hclosed

/-- A module may be changed in its place, as long as it stays released or not and keeps its path. -/
theorem Balanced.replace {s : Store} (h : s.Balanced) {handle : Nat} {m m' : Module}
    (hm : s.module? handle = some m) (hreleased : m'.released = m.released) (hpath : m'.path = m.path) :
    (s.replace handle m').Balanced := by
  have hlt := lt_openCount_of_module? hm
  have hself : (s.replace handle m').module? handle = some m' := List.getElem?_set_self hlt
  have hother : ∀ {other : Nat}, handle ≠ other →
      (s.replace handle m').module? other = s.module? other := fun hne => List.getElem?_set_ne hne
  -- the numbers and the places stay, and of the modules only the one in question is another
  refine ⟨?_, h.places_nodup, h.handles_nodup, ?_, ?_, h.closed⟩
  · have hcount := h.count
    rw [openCount] at hcount
    rw [openCount, Store.replace, List.length_set]
    exact hcount
  · intro entry hentry
    obtain ⟨old, hold, hfresh, hplace⟩ := h.held entry hentry
    by_cases heq : handle = entry.2
    · rw [← heq, hm] at hold
      obtain rfl := Option.some.inj hold
      exact ⟨m', heq ▸ hself, hreleased.trans hfresh, hpath.trans hplace.1, hplace.2⟩
    · exact ⟨old, (hother heq).trans hold, hfresh, hplace⟩
  · intro other old hold hfresh
    by_cases heq : handle = other
    · rw [← heq, hself] at hold
      obtain rfl := Option.some.inj hold
      exact h.opened other m (heq ▸ hm) (hreleased.symm.trans hfresh)
    · exact h.opened other old ((hother heq).symm.trans hold) hfresh

/-- What a release does to a module that is held. -/
theorem release_of_mem {s : Store} (h : s.Balanced) {handle : Nat} (hmem : handle ∈ s.handles) :
    ∃ m, s.module? handle = some m ∧ s.release handle = { s.replace handle m.release with
      releaseCount := s.releaseCount + 1
      held := s.held.filter (·.2 != handle) } := by
  obtain ⟨m, hm, hreleased⟩ := h.exists_module hmem
  refine ⟨m, hm, ?_⟩
  unfold release
  rw [hm]
  dsimp only
  rw [if_neg (by rw [hreleased]; exact Bool.false_ne_true)]

/-- Releasing something that is not held does nothing: it was never opened, or it is released already. -/
theorem release_of_not_mem {s : Store} (h : s.Balanced) {handle : Nat} (hmem : handle ∉ s.handles) :
    s.release handle = s := by
  unfold release
  split
  · rfl
  · rename_i m hm
    split
    · rfl
    · rename_i hreleased
      exact absurd (h.opened handle m hm (by simpa using hreleased)) hmem

/-- What is held after a release is what was held for other handles. -/
theorem held_release {s : Store} (h : s.Balanced) (handle : Nat) :
    (s.release handle).held = s.held.filter (·.2 != handle) := by
  by_cases hmem : handle ∈ s.handles
  · obtain ⟨m, -, hrelease⟩ := release_of_mem h hmem
    rw [hrelease]
  · rw [release_of_not_mem h hmem]
    refine (List.filter_eq_self.mpr fun entry hentry => ?_).symm
    rw [bne_iff_ne]
    rintro rfl
    exact hmem (List.mem_map_of_mem hentry)

/-- A handle that is held once is taken away once. -/
theorem length_filter_handle {held : List (Path × Nat)} {handle : Nat} (hnodup : (held.map (·.2)).Nodup)
    (hmem : handle ∈ held.map (·.2)) : (held.filter (·.2 != handle)).length + 1 = held.length := by
  have hcount : held.countP (·.2 == handle) = 1 := by
    have := List.count_eq_one_of_mem hnodup hmem
    rwa [List.count, List.countP_map] at this
  have htotal := List.length_eq_countP_add_countP (·.2 == handle) (l := held)
  rw [← List.countP_eq_length_filter]
  have hnot : held.countP (fun entry => entry.2 != handle)
      = held.countP (fun entry => ¬ (entry.2 == handle) = true) := by
    refine List.countP_congr fun entry _ => ?_
    simp [bne]
  omega

/-- **Releasing** takes an entry away and counts it, once. -/
theorem Balanced.release {s : Store} (h : s.Balanced) (handle : Nat) : (s.release handle).Balanced := by
  by_cases hmem : handle ∈ s.handles
  · obtain ⟨m, hm, hrelease⟩ := release_of_mem h hmem
    have hlt := lt_openCount_of_module? hm
    rw [hrelease]
    refine ⟨?_, ?_, ?_, ?_, ?_, ?_⟩
    · have hcount := h.count
      have hlength := length_filter_handle h.handles_nodup hmem
      simp only [openCount, Store.replace, List.length_set] at hcount ⊢
      omega
    · exact h.places_nodup.sublist (List.filter_sublist.map _)
    · exact h.handles_nodup.sublist (List.filter_sublist.map _)
    · -- the entries that are left have other handles
      intro entry hentry
      obtain ⟨hentry, hne⟩ := List.mem_filter.mp hentry
      obtain ⟨m', hm', hrest⟩ := h.held entry hentry
      refine ⟨m', ?_, hrest⟩
      have hne : handle ≠ entry.2 := (bne_iff_ne.mp hne).symm
      exact (List.getElem?_set_ne hne).trans hm'
    · -- a module that is not released is another one, and has its entry still
      intro other m' hm' hreleased
      by_cases heq : handle = other
      · subst heq
        have hself : (s.opened.set handle m.release)[handle]? = some m.release :=
          List.getElem?_set_self hlt
        obtain rfl := Option.some.inj (hself.symm.trans hm')
        exact nomatch hreleased
      · have hold : s.module? other = some m' := (List.getElem?_set_ne heq).symm.trans hm'
        obtain ⟨entry, hentry, rfl⟩ := List.mem_map.mp (h.opened other m' hold hreleased)
        exact List.mem_map_of_mem (List.mem_filter.mpr ⟨hentry, bne_iff_ne.mpr (Ne.symm heq)⟩)
    · intro hclosed
      rw [h.closed hclosed]
      rfl
  · rw [release_of_not_mem h hmem]
    exact h

/-! ## What operations keep -/

/-- A store after an operation, however it ended: balanced books stay balanced, handles stay valid, and a
closed store stays closed. -/
structure Keeps (s s' : Store) : Prop where
  balanced : s.Balanced → s'.Balanced
  openCount_le : s.openCount ≤ s'.openCount
  closed : s.closed = true → s'.closed = true

theorem Keeps.refl (s : Store) : s.Keeps s := ⟨id, Nat.le_refl _, id⟩

theorem Keeps.trans {a b c : Store} (hab : a.Keeps b) (hbc : b.Keeps c) : a.Keeps c where
  balanced := fun h => hbc.balanced (hab.balanced h)
  openCount_le := Nat.le_trans hab.openCount_le hbc.openCount_le
  closed := fun h => hbc.closed (hab.closed h)

theorem SameBooks.keeps {s s' : Store} (same : SameBooks s s') : s.Keeps s' where
  balanced := same.balanced
  openCount_le := Nat.le_of_eq (by rw [openCount, openCount, same.opened])
  closed := same.closed.trans

theorem keeps_note (s : Store) (lines : List LogLine) : s.Keeps (s.note lines) :=
  SameBooks.keeps ⟨rfl, rfl, rfl, rfl⟩

theorem keeps_report (s : Store) (diagnostics : List Diagnostic) : s.Keeps (s.report diagnostics) :=
  SameBooks.keeps ⟨rfl, rfl, rfl, rfl⟩

theorem keeps_skip (s : Store) (place : Path) (error : Error) : s.Keeps (s.skip place error) :=
  (keeps_note s _).trans (keeps_report _ _)

theorem keeps_write (s : Store) (m : Module) (withSymbols : Bool) : s.Keeps (s.write m withSymbols).2 :=
  SameBooks.keeps ⟨rfl, rfl, rfl, rfl⟩

theorem openCount_replace (s : Store) (handle : Nat) (m : Module) :
    (s.replace handle m).openCount = s.openCount :=
  List.length_set

theorem openCount_release (s : Store) (handle : Nat) : (s.release handle).openCount = s.openCount := by
  unfold release
  split
  · rfl
  · split
    · rfl
    · exact openCount_replace s handle _

theorem closed_release (s : Store) (handle : Nat) : (s.release handle).closed = s.closed := by
  unfold release
  split
  · rfl
  · split
    · rfl
    · rfl

theorem files_release (s : Store) (handle : Nat) : (s.release handle).files = s.files := by
  unfold release
  split
  · rfl
  · split
    · rfl
    · rfl

theorem keeps_release (s : Store) (handle : Nat) : s.Keeps (s.release handle) where
  balanced := fun h => h.release handle
  openCount_le := Nat.le_of_eq (openCount_release s handle).symm
  closed := (closed_release s handle).trans

theorem keeps_hold {s : Store} {place : Path} {m : Module} (hopen : s.closed = false)
    (hplace : place.resolve = place) (hfree : s.holds place = false)
    (hm : s.files.readModule place = .ok m) : s.Keeps (s.hold place m) :=
  ⟨fun h => h.hold hopen hplace hfree hm, by simp [openCount, hold], id⟩

theorem keeps_synthesize (s : Store) (handle : Nat) (index : Option Index) (group : String)
    (items : List Instantiation) : s.Keeps (s.synthesize handle index group items).2 := by
  unfold synthesize
  split
  · exact Keeps.refl s
  · rename_i type m hsynth
    have hcount := Nat.le_of_eq (openCount_replace s handle m).symm
    refine Keeps.trans ⟨fun h => ?_, hcount, id⟩ (keeps_write _ _ _)
    cases hm : s.module? handle with
    | none =>
      -- an unknown handle names nothing that could change
      have hsame : s.replace handle m = s := by
        unfold replace
        rw [List.set_eq_of_length_le (List.getElem?_eq_none_iff.mp hm)]
      rw [hsame]
      exact h
    | some old =>
      rw [hm, Option.getD_some] at hsynth
      obtain ⟨hreleased, hpath⟩ := Module.fresh_of_synthesize hsynth
      exact h.replace hm hreleased hpath

/-! ## Loading -/

theorem keeps_loadReferences {s : Store} (hopen : s.closed = false) (pending : List String) :
    s.Keeps (s.loadReferences pending).2 := by
  induction s, pending using loadReferences.induct with
  | case1 s => rw [loadReferences_nil]; exact Keeps.refl s
  | case2 s reference pending fault hp => rw [loadReferences_of_fault hp]; exact Keeps.refl s
  | case3 s reference pending hp ih => rw [loadReferences_of_known hp]; exact ih hopen
  | case4 s reference pending place hp m hm ih =>
    obtain ⟨hplace, hfree⟩ := missing?_eq_some hp
    rw [loadReferences_of_loaded hp hm]
    exact (keeps_hold hopen hplace hfree hm).trans (ih hopen)
  | case5 s reference pending place hp error hm hload ih =>
    rw [loadReferences_of_skipped hp hm hload]
    exact (keeps_skip s place error).trans (ih hopen)
  | case6 s reference pending place hp error hm hload =>
    rw [loadReferences_of_raised hp hm hload]
    exact Keeps.refl s

/-! ## Handing modules out -/

/-- The handles in an answer: none if there is no answer. -/
def handedOut (answer : Except Error (List Nat)) : List Nat := answer.toOption.getD []

/-- An operation that answers handles, however it ended: it keeps the books, and the handles that it hands
out are those of opened modules. -/
structure Serves (s : Store) (answer : Except Error (List Nat)) (s' : Store) : Prop extends s.Keeps s' where
  handedOut_lt : s.Balanced → ∀ handle ∈ handedOut answer, handle < s'.openCount

theorem Keeps.serves_error {s s' : Store} (h : s.Keeps s') (error : Error) : s.Serves (.error error) s' :=
  ⟨h, fun _ _ hmem => absurd hmem List.not_mem_nil⟩

theorem Keeps.serves_none {s s' : Store} (h : s.Keeps s') : s.Serves (.ok []) s' :=
  ⟨h, fun _ _ hmem => absurd hmem List.not_mem_nil⟩

theorem Keeps.serves_one {s s' : Store} (h : s.Keeps s') {handle : Nat}
    (hlt : s.Balanced → handle < s'.openCount) : s.Serves (.ok [handle]) s' :=
  ⟨h, fun hs _ hmem => List.mem_singleton.mp hmem ▸ hlt hs⟩

/-- Opening a module counts it, even if what it refers to cannot be loaded. -/
theorem serves_openAt {s : Store} {place : Path} (hopen : s.closed = false) (hplace : place.resolve = place)
    (hfree : s.holds place = false) : s.Serves ((s.openAt place).1.map ([·])) (s.openAt place).2 := by
  unfold openAt
  cases hm : s.files.readModule place with
  | error error => exact (Keeps.refl s).serves_error error
  | ok m =>
    have hhold := keeps_hold hopen hplace hfree hm
    have hlt : s.openCount < (s.hold place m).openCount := by simp [openCount, hold]
    dsimp only
    split
    · have hload := keeps_loadReferences (s := s.hold place m) hopen m.references
      have hkeeps := hhold.trans hload
      cases hresult : (s.hold place m).loadReferences m.references with
      | mk result s' =>
        rw [hresult] at hload hkeeps
        cases result with
        | error error => exact hkeeps.serves_error error
        | ok _ => exact hkeeps.serves_one fun _ => Nat.lt_of_lt_of_le hlt hload.openCount_le
    · exact hhold.serves_one fun _ => hlt

theorem Balanced.lt_openCount_of_handleOf? {s : Store} (h : s.Balanced) {place : Path} {handle : Nat}
    (hhandle : s.handleOf? place = some handle) : handle < s.openCount := by
  have hmem : (place, handle) ∈ s.held := by
    obtain ⟨before, after, hsplit, -⟩ := List.lookup_eq_some_iff.mp hhandle
    rw [hsplit]
    exact List.mem_append_right _ List.mem_cons_self
  obtain ⟨m, hm, -⟩ := h.held _ hmem
  exact lt_openCount_of_module? hm

theorem serves_add (s : Store) (path : Path) : s.Serves ((s.add path).1.map ([·])) (s.add path).2 := by
  unfold add
  split
  · exact (Keeps.refl s).serves_error _
  · rename_i hopen
    split
    · exact (Keeps.refl s).serves_error _
    · rename_i place hresolved
      have hplace : place.resolve = place := by
        unfold Path.resolved at hresolved
        split at hresolved
        · exact nomatch hresolved
        · obtain rfl := Except.ok.inj hresolved
          exact path.resolve_resolve
      cases hhandle : s.handleOf? place with
      | some handle => exact (Keeps.refl s).serves_one fun hs => hs.lt_openCount_of_handleOf? hhandle
      | none =>
        have hfree : s.holds place = false := by rw [holds, hhandle]; rfl
        exact serves_openAt (by simpa using hopen) hplace hfree

theorem serves_add? (s : Store) (path : Path) :
    s.Serves ((s.add? path).1.map Option.toList) (s.add? path).2 := by
  have hadd := serves_add s path
  unfold add?
  split
  · rename_i handle s' heq
    rwa [heq] at hadd
  · rename_i error s' heq
    rw [heq] at hadd
    split
    · exact (hadd.toKeeps.trans (keeps_skip s' _ _)).serves_none
    · exact hadd.toKeeps.serves_error error

theorem serves_addAll (s : Store) (paths : List Path) : s.Serves (s.addAll paths).1 (s.addAll paths).2 := by
  induction paths generalizing s with
  | nil => exact (Keeps.refl s).serves_none
  | cons path rest ih =>
    have hfirst := serves_add? s path
    rw [addAll]
    split
    · rename_i error s' heq
      rw [heq] at hfirst
      exact hfirst.toKeeps.serves_error error
    · rename_i handle s' heq
      rw [heq] at hfirst
      have hrest := ih s'
      have hkeeps := hfirst.toKeeps.trans hrest.toKeeps
      cases hresult : s'.addAll rest with
      | mk result s'' =>
        rw [hresult] at hrest hkeeps
        cases result with
        | error error => exact hkeeps.serves_error error
        | ok more =>
          refine ⟨hkeeps, fun hs other hmem => ?_⟩
          rcases List.mem_append.mp hmem with hmem | hmem
          · exact Nat.lt_of_lt_of_le (hfirst.handedOut_lt hs other hmem) hrest.openCount_le
          · exact hrest.handedOut_lt (hfirst.balanced hs) other hmem

theorem serves_select (s : Store) (hints : List String) (exclude : Bool) :
    s.Serves (s.select hints exclude).1 (s.select hints exclude).2 := by
  unfold select
  split
  · exact (Keeps.refl s).serves_error _
  · rename_i paths _
    have hall := serves_addAll s paths
    split
    · rename_i error s' heq
      rwa [heq] at hall
    · rename_i handles s' heq
      rw [heq] at hall
      split
      · exact hall.toKeeps.serves_error _
      · exact hall

/-! ## Closing -/

theorem held_foldl_release {s : Store} (h : s.Balanced) (handles : List Nat) :
    (handles.foldl release s).held = s.held.filter fun entry => entry.2 ∉ handles := by
  induction handles generalizing s with
  | nil => simp
  | cons handle rest ih =>
    rw [List.foldl_cons, ih (h.release handle), held_release h, List.filter_filter]
    refine List.filter_congr fun entry _ => ?_
    by_cases hentry : entry.2 = handle
    · simp [hentry]
    · simp [hentry]

theorem balanced_foldl_release {s : Store} (h : s.Balanced) (handles : List Nat) :
    (handles.foldl release s).Balanced := by
  induction handles generalizing s with
  | nil => exact h
  | cons handle rest ih => exact ih (h.release handle)

theorem openCount_foldl_release (s : Store) (handles : List Nat) :
    (handles.foldl release s).openCount = s.openCount := by
  induction handles generalizing s with
  | nil => rfl
  | cons handle rest ih => rw [List.foldl_cons, ih, openCount_release]

/-- Releasing every held module leaves none. -/
theorem held_release_all {s : Store} (h : s.Balanced) : (s.handles.foldl release s).held = [] := by
  rw [held_foldl_release h]
  refine List.filter_eq_nil_iff.mpr fun entry hentry => ?_
  have hmem : entry.2 ∈ s.handles := List.mem_map_of_mem hentry
  simp [hmem]

/-- **Closing** keeps the books and leaves nothing held. -/
theorem Balanced.close {s : Store} (h : s.Balanced) : s.close.Balanced := by
  have hall := balanced_foldl_release h s.handles
  have hnone := held_release_all h
  refine ⟨?_, List.nodup_nil, List.nodup_nil, fun _ hentry => absurd hentry List.not_mem_nil, ?_,
    fun _ => rfl⟩
  · have hcount := hall.count
    rw [hnone] at hcount
    exact hcount
  · intro handle m hm hreleased
    have hmem := hall.opened handle m hm hreleased
    rw [handles, hnone] at hmem
    exact absurd hmem List.not_mem_nil

theorem files_close (s : Store) : s.close.files = s.files := by
  have hall : ∀ (handles : List Nat) (s : Store), (handles.foldl release s).files = s.files := by
    intro handles
    induction handles with
    | nil => exact fun _ => rfl
    | cons handle rest ih => exact fun s => (ih _).trans (files_release s handle)
  exact hall s.handles s

theorem keeps_close (s : Store) : s.Keeps s.close :=
  ⟨Balanced.close, Nat.le_of_eq (openCount_foldl_release s s.handles).symm, fun _ => rfl⟩

/-- A closed store with balanced books has released everything it ever opened. -/
theorem Balanced.released_of_closed {s : Store} (h : s.Balanced) (hclosed : s.closed = true) {handle : Nat}
    {m : Module} (hm : s.module? handle = some m) : m.released = true := by
  by_contra hreleased
  have hmem := h.opened handle m hm (by simpa using hreleased)
  rw [handles, h.closed hclosed] at hmem
  exact absurd hmem List.not_mem_nil

/-- Closing a closed store changes nothing. -/
theorem close_of_closed {s : Store} (h : s.Balanced) (hclosed : s.closed = true) : s.close = s := by
  have hheld := h.closed hclosed
  unfold close
  rw [handles, hheld, List.map_nil, List.foldl_nil]
  cases s
  simp_all

end Store

end JobClosure
