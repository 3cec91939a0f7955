import JobClosure.Proofs.Instantiation.Unnamed
import JobClosure.Proofs.Metadata.Loaded
import JobClosure.Proofs.Metadata.Rewritten
import JobClosure.Proofs.Store.Reload
import JobClosure.Proofs.Synthesis

/-!
# Files with a group in them

A group of closed types that was written into the files of a module adds types whose names nobody used before.
What is loaded from the files is then the same up to these types (`Regrouped.loadsAs`). They have no methods, and
nothing leads to them, so the analysis of what is loaded is the same (`Regrouped.survey_eq`), although it is made
with an index that holds them. The same instantiations make the same group (`closedRefs_of_agrees`), which takes
the place of the first one: the files that are written again are byte for byte those that stand there
(`Regrouped.write_again`).
-/

namespace JobClosure

open Synthesis (closedRefs closedRef newTypes inGroup)

/-! ## Names of a group -/

/-- Whether a type of a name belongs to a group. -/
def Synthesis.namedIn (group name : String) : Bool :=
  name == group || (group ++ "/").toList.isPrefixOf name.toList

open Synthesis (namedIn)

theorem Synthesis.inGroup_eq (group : String) (type : TypeDef) : inGroup group type = namedIn group type.fullName :=
  rfl

/-- A module that does not use the names of a group: not for its types, and neither as supertypes nor in the bodies
of methods. -/
structure Module.Avoids (group : String) (m : Module) : Prop where
  declared : ∀ type ∈ m.types, Visible (namedIn group) type.fullName
  supertypes : ∀ type ∈ m.types, ∀ ref ∈ type.interfaces ++ type.base.toList, Visible (namedIn group) ref.name
  bodies : ∀ type ∈ m.types, Scanner.NamesInBodies (Visible (namedIn group)) type

/-- `m'` is `m` with types of a group, which have no methods. -/
structure Module.Gains (group : String) (m m' : Module) : Prop where
  name : m'.name = m.name
  references : m'.references = m.references
  hides : m.Hides (namedIn group) m'
  silent : ∀ type ∈ m'.types, namedIn group type.fullName = true → type.methods = []

/-- A module with a group of closed types at its end. -/
def Module.withGroup (m : Module) (group : String) (refs : List TypeRef) : Module :=
  m.addTypes (newTypes m.name group refs)

namespace Module

variable {m : Module} {group : String} {refs : List TypeRef}

theorem Avoids.filter_eq_self (h : m.Avoids group) :
    m.types.filter (fun type => !namedIn group type.fullName) = m.types := by
  rw [List.filter_eq_self]
  intro type htype
  have hvisible : namedIn group type.fullName = false := h.declared type htype
  rw [hvisible]
  rfl

theorem Avoids.of_types (h : m.Avoids group) {other : Module} (htypes : other.types = m.types) : other.Avoids group where
  declared := htypes ▸ h.declared
  supertypes := htypes ▸ h.supertypes
  bodies := htypes ▸ h.bodies

/-- There is nothing of the group in such a module. -/
theorem Avoids.outside_eq (h : m.Avoids group) : m.outside group = m :=
  congrArg (fun types => { m with types }) h.filter_eq_self

/-- Nothing in such a module leads to the group. -/
theorem Avoids.leadsTo (h : m.Avoids group) (hloaded : m.Loaded) :
    ∀ type ∈ m.types, type.LeadsTo (Visible (namedIn group)) := by
  intro type htype
  have hsuper := h.supertypes type htype
  refine ⟨⟨fun ref href => ?_, fun ref href => ?_, fun method hmethod => ?_⟩, h.bodies type htype⟩
  · exact hsuper ref (List.mem_append_left _ href)
  · exact hsuper ref (List.mem_append_right _ (Option.mem_toList.mpr href))
  · rw [hloaded.holdsOwnMethods type htype method hmethod]
    exact h.declared type htype

/-- A module that is left as it is, up to its symbols, gains nothing. -/
theorem Avoids.gains (h : m.Avoids group) (symbols : Symbols) : m.Gains group { m with symbols } where
  name := rfl
  references := rfl
  hides := ⟨rfl, h.filter_eq_self.symm⟩
  silent type htype hnamed := by
    rw [h.declared type htype] at hnamed
    cases hnamed

theorem filter_newTypes (module group : String) (refs : List TypeRef) :
    (newTypes module group refs).filter (fun type => !namedIn group type.fullName) = [] := by
  rw [List.filter_eq_nil_iff]
  intro type htype
  rw [← Synthesis.inGroup_eq, Synthesis.inGroup_of_mem_newTypes htype]
  exact Bool.false_ne_true

/-- Types without methods are written as they are. -/
theorem map_asWritten_newTypes (module group : String) (refs : List TypeRef) :
    (newTypes module group refs).map TypeDef.asWritten = newTypes module group refs := by
  refine (List.map_congr_left fun type htype => ?_).trans (List.map_id _)
  have hmethods := Synthesis.methods_of_mem_newTypes htype
  cases type
  rw [TypeDef.asWritten]
  dsimp only at hmethods ⊢
  rw [hmethods]
  rfl

theorem types_asStored_withGroup (hwritten : m.asWritten = m) (path : Path) :
    ((m.withGroup group refs).asStored path).types = m.types ++ newTypes m.name group refs := by
  have htypes : m.types.map TypeDef.asWritten = m.types := congrArg Module.types hwritten
  show (m.types ++ newTypes m.name group refs).map TypeDef.asWritten = _
  rw [List.map_append, htypes, map_asWritten_newTypes]

/-- **What is stored with a group** is what was there, and the group. -/
theorem Avoids.gains_withGroup (h : m.Avoids group) (refs : List TypeRef) {path : Path}
    (hpath : m.path = some path) (hwritten : m.asWritten = m) : m.Gains group ((m.withGroup group refs).asStored path) where
  name := rfl
  references := rfl
  hides := by
    refine ⟨?_, ?_⟩
    · rw [identity, hpath]
      rfl
    · rw [types_asStored_withGroup hwritten, List.filter_append, h.filter_eq_self, filter_newTypes, List.append_nil]
  silent := by
    intro type htype hnamed
    rw [types_asStored_withGroup hwritten] at htype
    rcases List.mem_append.mp htype with htype | htype
    · rw [h.declared type htype] at hnamed
      cases hnamed
    · exact Synthesis.methods_of_mem_newTypes htype

end Module

/-! ## Closed references -/

namespace Synthesis

variable {known : String → Prop} {ix ix' : Index} {items : List Instantiation} {refs : List TypeRef}

/-- **The same references are closed** where every known name has the same definition. -/
theorem closedRefs_of_agrees (hagrees : ix.Agrees known ix')
    (hknown : ∀ name type, ix.type? name = some type → known name) (h : closedRefs (some ix) items = .ok refs) :
    closedRefs (some ix') items = .ok refs := by
  obtain ⟨found, hfound, hrefs⟩ := bind_eq_ok h
  have hclosed : ∀ item ∈ items, ∀ ref, closedRef (some ix) item = .ok ref → closedRef (some ix') item = .ok ref := by
    intro item _ ref hitem
    cases item with
    | parameter p => exact nomatch hitem
    | other value => exact nomatch hitem
    | ref given =>
      cases hopen : given.isOpen with
      | true =>
        rw [closedRef, hopen, if_pos rfl] at hitem
        exact nomatch hitem
      | false =>
        have htemplate : ix.type? given.name = ix'.type? given.name := by
          cases htype : ix.type? given.name with
          | some template => rw [← htype, hagrees.type? _ (hknown _ _ htype)]
          | none =>
            rw [closedRef, hopen, if_neg Bool.false_ne_true, checkTemplate, htype] at hitem
            exact nomatch hitem
        rw [← hitem, closedRef, closedRef, checkTemplate, checkTemplate, htemplate]
  rw [closedRefs, mapM_eq_ok_of_imp hclosed hfound]
  exact hrefs

end Synthesis

/-! ## The files -/

/-- `tree'` is `tree` with a group in the files of a module, where no module used the names of the group. -/
structure Regrouped (tree tree' : FileTree) (path companion : Path) (before : Module) (group : String)
    (refs : List TypeRef) : Prop where
  resolved : path.resolve = path
  rewrites : tree.Rewrites tree' path companion before (before.withGroup group refs)
  avoids : ∀ place m, tree.readModule place = .ok m → m.Avoids group
  written : before.asWritten = before

theorem Path.eq_of_resolve {path other : Path} (hpath : path.resolve = path) (hother : other.resolve = other)
    (h : other.resolve.parts = path.resolve.parts) : other = path := by
  rw [← hother, ← hpath, ← ofPlace_parts_resolve other, ← ofPlace_parts_resolve path, h]

namespace Regrouped

variable {tree tree' : FileTree} {path companion : Path} {before : Module} {group : String} {refs : List TypeRef}
  (h : Regrouped tree tree' path companion before group refs)
include h

theorem readModule : tree'.readModule path = .ok ((before.withGroup group refs).asStored path) :=
  h.rewrites.storable.readModule_of_write h.rewrites.read (by rw [h.resolved]; exact h.rewrites.place)
    h.rewrites.write

/-- Every module gains types of the group at most. -/
theorem exists_gains {place : Path} {m : Module} (hplace : place.resolve = place)
    (hread : tree.readModule place = .ok m) : ∃ m', tree'.readModule place = .ok m' ∧ m.Gains group m' := by
  have havoids := h.avoids place m hread
  by_cases hsame : place.resolve.parts = path.resolve.parts
  · obtain rfl := Path.eq_of_resolve h.resolved hplace hsame
    obtain rfl := Except.ok.inj (hread.symm.trans h.rewrites.read)
    exact ⟨_, h.readModule, havoids.gains_withGroup refs h.rewrites.place h.written⟩
  · obtain ⟨symbols, hread'⟩ := h.rewrites.readModule_elsewhere hsame hread
    exact ⟨_, hread', havoids.gains symbols⟩

/-- **The files are loaded as before.** -/
theorem loadsAs : tree.LoadsAs tree' where
  findModule? := h.rewrites.searchesAs.findModule?
  selectModules _ _ _ _ hpaths := h.rewrites.searchesAs.selectModules hpaths
  readModule place m hplace hread := by
    obtain ⟨m', hread', hgains⟩ := h.exists_gains hplace hread
    exact ⟨m', hread', hgains.name, hgains.references⟩
  refuses place error hplace hread hload := by
    have hne : place.resolve.parts ≠ path.resolve.parts := by
      intro hsame
      obtain rfl := Path.eq_of_resolve h.resolved hplace hsame
      exact nomatch hread.symm.trans h.rewrites.read
    exact (h.rewrites.unreadable hne (FileTree.unreadable_of_readModule hread hload)).exists_error

section

variable {s s' : Store} (hs : Store.Parallels tree tree' s s')
include hs

theorem forall₂_gains : List.Forall₂ (Module.Gains group) s.modules s'.modules := by
  refine hs.forall₂_modules fun entry m m' hread => ?_
  obtain ⟨found, hfound, hgains⟩ := h.exists_gains hread.resolved hread.read
  rwa [Except.ok.inj (hread.read'.symm.trans hfound)]

theorem avoids_of_mem_modules : ∀ m ∈ s.modules, m.Avoids group ∧ m.Loaded := by
  intro m hm
  obtain ⟨entry, m', hread⟩ := hs.exists_read hm
  exact ⟨h.avoids _ _ hread.read, .file hread.read⟩

theorem leadsTo : ∀ m ∈ s.modules, ∀ type ∈ m.types, type.LeadsTo (Visible (namedIn group)) := fun m hm =>
  have hm := h.avoids_of_mem_modules hs m hm
  hm.1.leadsTo hm.2

/-- **The analysis of what is loaded** is what it was. -/
theorem survey_eq (marker : String) : survey marker s.modules = survey marker s'.modules := by
  have hgains := h.forall₂_gains hs
  refine survey_of_hides (hgains.imp fun _ _ hm => hm.hides) (h.leadsTo hs) ?_
  have hsilent := hgains.imp fun _ _ hm => And.intro hm.silent trivial
  exact ((List.forall₂_and_left _ _).mp hsilent.flip).1

theorem closedRefs_eq {items : List Instantiation} {closed : List TypeRef}
    (hclosed : closedRefs (some (Index.ofModules s.modules)) items = .ok closed) :
    closedRefs (some (Index.ofModules s'.modules)) items = .ok closed := by
  have hhides := (h.forall₂_gains hs).imp fun _ _ hm => hm.hides
  refine Synthesis.closedRefs_of_agrees (Index.agrees_of_hides hhides (h.leadsTo hs)) ?_ hclosed
  intro name type htype
  obtain ⟨m, hm, hmem⟩ := Index.exists_module_of_type? htype
  rw [← Index.fullName_of_type? htype]
  exact (h.avoids_of_mem_modules hs m hm).1.declared type hmem

end

/-! ## Writing again -/

/-- The group takes the place of the one that is there. -/
theorem outside_stored : (((before.withGroup group refs).asStored path).outside group).types = before.types := by
  have hgains := (h.avoids _ _ h.rewrites.read).gains_withGroup refs h.rewrites.place h.written
  exact hgains.hides.types.symm

/-- What stands at the two places is all that was ever entered there. -/
theorem onlyHolds :
    tree'.OnlyHolds path.resolve.parts (.file (before.withGroup group refs).document.toUTF8) ∧
      tree'.OnlyHolds companion.resolve.parts (.file (Symbols.document before.symbols).toUTF8) := by
  obtain ⟨between, hfirst, hsecond⟩ := h.rewrites.exists_between
  obtain ⟨-, -, rfl⟩ := FileTree.writeBytes_eq_ok_iff.mp hfirst
  obtain ⟨-, -, rfl⟩ := FileTree.writeBytes_eq_ok_iff.mp hsecond
  obtain ⟨-, -, hapart⟩ := h.rewrites.places
  exact ⟨(FileTree.onlyHolds_set _ _ _).set hapart.symm, FileTree.onlyHolds_set _ _ _⟩

/-- **Writing the same group again changes no byte.** -/
theorem write_again {again : Module} (hpath : again.path = some path) (hname : again.name = before.name)
    (hreferences : again.references = before.references)
    (htypes : again.types = before.types ++ newTypes before.name group refs)
    (hsymbols : again.symbols = Symbols.sorted before.symbols) : again.write true tree' = (tree', .ok path) := by
  obtain ⟨hlocate, hlocate', -⟩ := h.rewrites.places
  obtain ⟨hholds, hholds'⟩ := h.onlyHolds
  have hdocument : again.document = (before.withGroup group refs).document := by
    have hform : again.toForm = (before.withGroup group refs).toForm := by
      rw [Module.toForm, hname, hreferences, htypes]
      rfl
    rw [Module.document, hform, Module.document]
  have hdocument' : Symbols.document again.symbols = Symbols.document before.symbols := by
    rw [Symbols.document, Symbols.document, Symbols.toForm, Symbols.toForm, hsymbols, Symbols.sorted_sorted]
  have hnot : ∀ place, tree.entry? place ≠ some .directory → tree'.entry? place ≠ some .directory :=
    fun place => mt (h.rewrites.sameBut.directories place).mp
  obtain ⟨between, hfirst, hsecond⟩ := h.rewrites.exists_between
  obtain ⟨-, hfile, hbetween⟩ := FileTree.writeBytes_eq_ok_iff.mp hfirst
  obtain ⟨-, hwrote⟩ := FileTree.wrote_of_writeBytes hsecond
  refine (Module.write_eq_ok_iff hpath).mpr ⟨rfl, companion, tree', h.rewrites.symbols, ?_, ?_⟩
  · rw [hdocument]
    exact hholds.writeBytes (h.rewrites.sameBut.locate hlocate) (hnot _ hfile)
  · rw [hdocument']
    refine hholds'.writeBytes (h.rewrites.sameBut.locate hlocate') ?_
    simp [hwrote.here]

end Regrouped

end JobClosure
