import JobClosure.Proofs.FileTree.Search
import JobClosure.Proofs.Metadata.File

/-!
# Modules beside one that was written

A module that is written over its files changes what is read from them, and nothing else but symbols: another
document may share the symbol document, if the two differ in their suffixes only. So every other module that
could be read is read again up to its symbols (`Rewrites.readModule_elsewhere`), and what could not be read as a
module cannot be read afterwards (`Rewrites.unreadable`). The symbol document that may have been made is no
exception: it is none of a module.
-/

namespace JobClosure

namespace FileTree

variable {tree tree' : FileTree} {path : Path}

/-! ## Why a module is left out -/

/-- Why there is no module at a path, up to failures that stop the loading of modules. -/
inductive Unreadable (tree : FileTree) (path : Path) : Prop
  | bytes (fault : StorageFault) (hbytes : tree.readBytes path = .error fault) (hfault : fault ≠ .nullCharacter)
  | document (text : String) (error : Error) (htext : tree.readText path = .ok text)
      (hdocument : Module.ofDocument (some path) text = .error error)
  | symbols (text : String) (declared : Module) (companion : Path) (error : Error)
      (htext : tree.readText path = .ok text) (hdocument : Module.ofDocument (some path) text = .ok declared)
      (hcompanion : path.symbols = .ok companion) (hthere : tree.contains companion = .ok true)
      (hsymbols : (tree.readText companion >>= Symbols.ofDocument) = .error error)

theorem isLoad_of_asLoad {α : Type} {wrap : Error → Error} (hwrap : ∀ cause, (wrap cause).isLoad = true)
    {result : Except Error α} {error : Error} (h : asLoad wrap result = .error error) : error.isLoad = true := by
  obtain ⟨cause, -, rfl⟩ := mapError_eq_error h
  split
  · assumption
  · exact hwrap cause

theorem readText_of_bytes_error {fault : StorageFault} (h : tree.readBytes path = .error fault) :
    tree.readText path = .error (.storage fault) := by
  rw [readText, h]
  rfl

/-- What is read after the text. -/
theorem readModule_of_text {text : String} (h : tree.readText path = .ok text) :
    tree.readModule path
      = asLoad (.cannotParse path) (Module.ofDocument (some path) text) >>= fun declared =>
          tree.readSymbols path >>= fun symbols => Except.ok { declared with symbols } := by
  rw [readModule, h]
  rfl

theorem Unreadable.exists_error (h : tree.Unreadable path) :
    ∃ error, tree.readModule path = .error error ∧ error.isLoad = true := by
  rcases h with ⟨fault, hbytes, hfault⟩ | ⟨text, error, htext, hdocument⟩ |
    ⟨text, declared, companion, error, htext, hdocument, hcompanion, hthere, hsymbols⟩
  · refine ⟨.cannotOpen path fault, ?_, rfl⟩
    rw [readModule, readText_of_bytes_error hbytes]
    cases fault with
    | nullCharacter => exact absurd rfl hfault
    | _ => rfl
  · cases hload : asLoad (.cannotParse path) (Module.ofDocument (some path) text) with
    | ok declared =>
      rw [hdocument] at hload
      cases hload
    | error error' =>
      refine ⟨error', ?_, isLoad_of_asLoad (fun _ => rfl) hload⟩
      rw [readModule_of_text htext, hload]
      rfl
  · refine ⟨.cannotParseSymbols companion error, ?_, rfl⟩
    have hread : tree.readSymbols path = .error (.cannotParseSymbols companion error) := by
      rw [readSymbols_of_contains hcompanion hthere, hsymbols]
      rfl
    rw [readModule_of_text htext, hdocument]
    show (tree.readSymbols path >>= fun symbols => Except.ok { declared with symbols }) = _
    rw [hread]
    rfl

theorem unreadable_of_readModule {error : Error} (h : tree.readModule path = .error error)
    (hload : error.isLoad = true) : tree.Unreadable path := by
  -- along the steps of the reader: the bytes, their encoding, the document, the companion and its table
  rcases bind_eq_error h with h | ⟨text, htext, h⟩
  · obtain ⟨cause, hcause, rfl⟩ := mapError_eq_error h
    rcases bind_eq_error hcause with hstorage | ⟨bytes, -, hcause⟩
    · obtain ⟨fault, hbytes, rfl⟩ := mapError_eq_error hstorage
      refine .bytes fault hbytes ?_
      rintro rfl
      exact nomatch hload
    · rcases bind_eq_error hcause with hencoding | ⟨text, -, hcause⟩
      · obtain ⟨fault, -, rfl⟩ := mapError_eq_error hencoding
        exact nomatch hload
      · exact nomatch hcause
  · have htext := mapError_eq_ok htext
    rcases bind_eq_error h with hdocument | ⟨declared, hdocument, h⟩
    · obtain ⟨cause, hdocument, -⟩ := mapError_eq_error hdocument
      exact .document text cause htext hdocument
    · rcases bind_eq_error h with h | ⟨symbols, -, h⟩
      · rcases bind_eq_error h with hnone | ⟨companion, hcompanion, h⟩
        · obtain ⟨fault, -, rfl⟩ := mapError_eq_error hnone
          exact nomatch hload
        · rcases bind_eq_error h with hthere | ⟨there, hthere, h⟩
          · obtain ⟨fault, -, rfl⟩ := mapError_eq_error hthere
            exact nomatch hload
          · cases there with
            | false => exact nomatch h
            | true =>
              obtain ⟨cause, hsymbols, -⟩ := mapError_eq_error h
              exact .symbols text declared companion cause htext (mapError_eq_ok hdocument)
                (mapError_eq_ok hcompanion) (mapError_eq_ok hthere) hsymbols
      · exact nomatch h

/-- **A module is left out** for these reasons. -/
theorem unreadable_iff :
    tree.Unreadable path ↔ ∃ error, tree.readModule path = .error error ∧ error.isLoad = true :=
  ⟨Unreadable.exists_error, fun ⟨_, h, hload⟩ => unreadable_of_readModule h hload⟩

/-! ## The place of a symbol document -/

theorem locate_of_readText {text : String} (h : tree.readText path = .ok text) :
    tree.locate path = .ok path.resolve.parts ∧ tree.contains path = .ok true := by
  obtain ⟨bytes, decoded, hbytes, -, -⟩ := readText_eq_ok_iff.mp h
  obtain ⟨hlocate, hentry⟩ := readBytes_eq_ok_iff.mp hbytes
  refine ⟨hlocate, ?_⟩
  rw [contains_of_locate hlocate, hentry]
  rfl

/-- At the companion of a module that can be read there is nothing, or a document of symbols. -/
theorem symbols_at_companion {m : Module} {companion other : Path} (h : tree.readModule path = .ok m)
    (hcompanion : path.symbols = .ok companion) (hother : tree.locate other = .ok companion.resolve.parts) :
    tree.contains other = .ok false ∨ tree.contains other = .ok true ∧
      ∃ text symbols, tree.readText other = .ok text ∧ Symbols.ofDocument text = .ok symbols := by
  obtain ⟨found, -, hfound, -, -, -, hplace, -⟩ := exists_symbols_of_readModule h
  obtain rfl := Except.ok.inj (hcompanion.symm.trans hfound)
  obtain ⟨-, -, symbols, -, -, hsymbols, -⟩ := readModule_eq_ok_iff.mp h
  obtain ⟨found, hfound, hthere⟩ := readSymbols_eq_ok_iff.mp hsymbols
  obtain rfl := Except.ok.inj (hcompanion.symm.trans hfound)
  rw [contains_of_locate hother, ← contains_of_locate hplace]
  refine hthere.imp And.left fun ⟨hthere, text, htext, hread⟩ => ⟨hthere, text, symbols, ?_, hread⟩
  exact readText_of_locate hplace hother htext

/-- A document of a module is not at the companion of another one. -/
theorem ne_companion_of_document {m declared : Module} {companion other : Path} {text : String}
    {module : Option Path} (h : tree.readModule path = .ok m) (hcompanion : path.symbols = .ok companion)
    (htext : tree.readText other = .ok text) (hdocument : Module.ofDocument module text = .ok declared) :
    other.resolve.parts ≠ companion.resolve.parts := by
  intro heq
  obtain ⟨hlocate, hthere⟩ := locate_of_readText htext
  rw [heq] at hlocate
  rcases symbols_at_companion h hcompanion hlocate with hnone | ⟨-, text', symbols, htext', hsymbols⟩
  · exact nomatch hthere.symm.trans hnone
  · obtain rfl := Except.ok.inj (htext.symm.trans htext')
    exact not_symbols_of_module hdocument hsymbols

/-- No companion is at the place of a path that ends with the name of a module document. -/
theorem companion_ne_of_namesModule {companion other : Path} (hcompanion : path.symbols = .ok companion)
    (hother : other.NamesModule) : companion.resolve.parts ≠ other.resolve.parts := by
  intro heq
  obtain ⟨before, base, hparts⟩ := hother.parts_resolve
  rcases List.eq_nil_or_concat path.parts with hnil | ⟨way, name, hpath⟩
  · rw [Path.symbols, Path.symbols?, hnil] at hcompanion
    cases hcompanion
  · rw [List.concat_eq_append] at hpath
    obtain rfl := Except.ok.inj (hcompanion.symm.trans (Path.symbols_eq_ok hpath))
    rw [← heq, Path.parts_resolve_of_name (Path.parts_withSuffix hpath _) (Path.append_symbolSuffix_ne _)] at hparts
    have hnames := List.head_eq_of_cons_eq (List.append_inj' hparts rfl).2
    exact Path.moduleSuffix_ne_symbolSuffix _ _ hnames.symm

/-! ## Reading elsewhere -/

namespace SameBut

variable {touched : List (List String)} (h : SameBut touched tree tree')
include h

theorem readText (hne : path.resolve.parts ∉ touched) {text : String} (htext : tree.readText path = .ok text) :
    tree'.readText path = .ok text := by
  obtain ⟨bytes, decoded, hbytes, hdecoded, rfl⟩ := readText_eq_ok_iff.mp htext
  exact readText_eq_ok_iff.mpr ⟨bytes, decoded, h.readBytes hne hbytes, hdecoded, rfl⟩

theorem contains (hne : path.resolve.parts ∉ touched) : tree'.contains path = tree.contains path := by
  rw [FileTree.contains, FileTree.contains, h.find? hne]

/-- What could not be computed from a text cannot be computed from it afterwards. -/
theorem exists_error_of_readText {α : Type} {f : String → Except Error α} (hne : path.resolve.parts ∉ touched)
    {error : Error} (hread : (tree.readText path >>= f) = .error error) :
    ∃ error', (tree'.readText path >>= f) = .error error' := by
  cases hread' : tree'.readText path >>= f with
  | error error' => exact ⟨error', rfl⟩
  | ok a =>
    obtain ⟨text, htext, hread'⟩ := bind_eq_ok hread'
    rw [h.symm.readText hne htext] at hread
    exact nomatch hread.symm.trans hread'

end SameBut

/-! ## Paths with null characters -/

theorem follow_ne_nullCharacter {start parts : List String} :
    tree.follow path start parts ≠ .error .nullCharacter := by
  induction parts generalizing start with
  | nil => simp [follow]
  | cons part rest ih =>
    rw [follow]
    split
    · split
      · simp
      · exact ih
    · simp
    · simp

theorem readBytes_null_iff : tree.readBytes path = .error .nullCharacter ↔ path.hasNull = true := by
  constructor
  · intro h
    rcases bind_eq_error h with h | ⟨place, -, h⟩
    · unfold locate at h
      split at h
      · assumption
      · split at h
        · exact nomatch h
        · exact absurd h follow_ne_nullCharacter
    · split at h
      · exact nomatch h
      · exact nomatch h
      · exact nomatch h
  · intro hnull
    rw [readBytes, locate, if_pos hnull]
    rfl

theorem Unreadable.not_hasNull (h : tree.Unreadable path) : path.hasNull = false := by
  have hlocate : ∀ text, tree.readText path = .ok text → path.hasNull = false := fun text htext =>
    (locate_eq_ok_iff.mp (locate_of_readText htext).1).1
  rcases h with ⟨fault, hbytes, hfault⟩ | ⟨text, -, htext, -⟩ | ⟨text, -, -, -, htext, -, -, -, -⟩
  · rw [Bool.eq_false_iff]
    intro hnull
    exact hfault (Except.error.inj (hbytes.symm.trans (readBytes_null_iff.mpr hnull)))
  · exact hlocate text htext
  · exact hlocate text htext

theorem unreadable_of_readBytes {fault : StorageFault} (hnull : path.hasNull = false)
    (hbytes : tree.readBytes path = .error fault) : tree.Unreadable path := by
  refine .bytes fault hbytes ?_
  rintro rfl
  rw [readBytes_null_iff.mp hbytes] at hnull
  cases hnull

theorem locate_of_contains (h : tree.contains path = .ok true) : tree.locate path = .ok path.resolve.parts := by
  cases hlocate : tree.locate path with
  | ok place => rw [locate_eq_ok hlocate]
  | error fault =>
    rw [contains, find?, hlocate] at h
    cases fault <;> cases h

/-! ## A module that is written over its files -/

/-- `tree'` is `tree` in which `m` was written over the files of `before`. -/
structure Rewrites (tree tree' : FileTree) (path companion : Path) (before m : Module) : Prop where
  suffix : path.suffix = Path.moduleSuffix
  symbols : path.symbols = .ok companion
  read : tree.readModule path = .ok before
  storable : m.Storable
  place : m.path = some path
  write : m.write true tree = (tree', .ok path)

theorem not_mem_places {companion other : Path} (hne : other.resolve.parts ≠ path.resolve.parts)
    (hne' : other.resolve.parts ≠ companion.resolve.parts) :
    other.resolve.parts ∉ [path.resolve.parts, companion.resolve.parts] := by
  simp [hne, hne']

namespace Rewrites

variable {companion other : Path} {before m : Module} (h : Rewrites tree tree' path companion before m)
include h

theorem places : tree.locate path = .ok path.resolve.parts ∧
    tree.locate companion = .ok companion.resolve.parts ∧ companion.resolve.parts ≠ path.resolve.parts := by
  obtain ⟨found, -, hfound, -, -, hlocate, hplace, hapart⟩ := exists_symbols_of_readModule h.read
  obtain rfl := Except.ok.inj (h.symbols.symm.trans hfound)
  exact ⟨hlocate, hplace, hapart⟩

theorem exists_between : ∃ between, tree.writeBytes path m.document.toUTF8 = .ok between ∧
    between.writeBytes companion (Symbols.document m.symbols).toUTF8 = .ok tree' := by
  obtain ⟨-, found, between, hfound, hfirst, hsecond⟩ := (Module.write_eq_ok_iff h.place).mp h.write
  obtain rfl := Except.ok.inj (h.symbols.symm.trans hfound)
  exact ⟨between, hfirst, hsecond⟩

/-- Nothing but the two files of the module is touched. -/
theorem sameBut : SameBut [path.resolve.parts, companion.resolve.parts] tree tree' := by
  obtain ⟨between, hfirst, hsecond⟩ := h.exists_between
  exact (wrote_of_writeBytes hfirst).2.sameBut.trans (wrote_of_writeBytes hsecond).2.sameBut

/-- **Searches find what they found.** -/
theorem searchesAs : tree.SearchesAs tree' := by
  obtain ⟨between, hfirst, hsecond⟩ := h.exists_between
  obtain ⟨text, -, -, htext, -, -, -⟩ := readModule_eq_ok_iff.mp h.read
  obtain ⟨bytes, -, hbytes, -, -⟩ := readText_eq_ok_iff.mp htext
  obtain ⟨hlocate, hwrote⟩ := wrote_of_writeBytes hfirst
  exact (searchesAs_of_overwrite hbytes hfirst).trans
    (searchesAs_of_companion (hwrote.readBytes_here hlocate) h.suffix h.symbols hsecond)

/-- At the companion stand the symbols, whatever path leads there. -/
theorem readText_companion (hother : tree'.locate other = .ok companion.resolve.parts) :
    tree'.contains other = .ok true ∧ tree'.readText other = .ok (Symbols.document m.symbols) := by
  obtain ⟨between, -, hsecond⟩ := h.exists_between
  obtain ⟨-, hwrote⟩ := wrote_of_writeBytes hsecond
  have hreturn : '\r' ∉ (Symbols.document m.symbols).toList :=
    fun hmem => h.storable.noReturnInSymbols (Form.holds_of_return_mem_document hmem)
  have hplace := locate_eq_ok hother
  refine ⟨?_, readText_of_readBytes (readBytes_eq_ok_iff.mpr ⟨?_, ?_⟩) hreturn⟩
  · rw [contains_of_locate hother, hwrote.here]
    rfl
  · rw [hother, hplace]
  · rw [← hplace, hwrote.here]

theorem ofDocument_companion :
    Symbols.ofDocument (Symbols.document m.symbols) = .ok (Symbols.sorted m.symbols) :=
  Symbols.ofDocument_document h.storable.distinctSymbols h.storable.countableSymbols

/-- **Every other module is read as before**, up to its symbols. -/
theorem readModule_elsewhere {m₀ : Module} (hne : other.resolve.parts ≠ path.resolve.parts)
    (hread : tree.readModule other = .ok m₀) : ∃ symbols, tree'.readModule other = .ok { m₀ with symbols } := by
  obtain ⟨theirs, -, htheirs, -, -, -, hplace, -⟩ := exists_symbols_of_readModule hread
  obtain ⟨text, declared, symbols, htext, hdocument, hsymbols, rfl⟩ := readModule_eq_ok_iff.mp hread
  obtain ⟨found, hfound, hthere⟩ := readSymbols_eq_ok_iff.mp hsymbols
  obtain rfl := Except.ok.inj (htheirs.symm.trans hfound)
  have hne' := ne_companion_of_document h.read h.symbols htext hdocument
  have hpath := companion_ne_of_namesModule htheirs (Path.namesModule_of_suffix h.suffix)
  have hsymbols' : ∃ symbols', tree'.readSymbols other = .ok symbols' := by
    by_cases hshared : theirs.resolve.parts = companion.resolve.parts
    · have hplace' := h.sameBut.locate hplace
      rw [hshared] at hplace'
      obtain ⟨hthere', htext'⟩ := h.readText_companion hplace'
      exact ⟨_, readSymbols_eq_ok_iff.mpr ⟨theirs, htheirs, .inr ⟨hthere', _, htext', h.ofDocument_companion⟩⟩⟩
    · have haway := not_mem_places hpath hshared
      refine ⟨symbols, readSymbols_eq_ok_iff.mpr ⟨theirs, htheirs, ?_⟩⟩
      rw [h.sameBut.contains haway]
      exact hthere.imp_right fun ⟨hthere, text, htext, hread⟩ =>
        ⟨hthere, text, h.sameBut.readText haway htext, hread⟩
  obtain ⟨symbols', hsymbols'⟩ := hsymbols'
  exact ⟨symbols', readModule_eq_ok_iff.mpr
    ⟨text, declared, symbols', h.sameBut.readText (not_mem_places hne hne') htext, hdocument, hsymbols', rfl⟩⟩

/-- What stands at the companion is no module. -/
theorem unreadable_companion (hnull : other.hasNull = false)
    (hother : other.resolve.parts = companion.resolve.parts) : tree'.Unreadable other := by
  cases hbytes : tree'.readBytes other with
  | error fault => exact unreadable_of_readBytes hnull hbytes
  | ok bytes =>
    obtain ⟨hlocate, -⟩ := readBytes_eq_ok_iff.mp hbytes
    rw [hother] at hlocate
    obtain ⟨-, htext⟩ := h.readText_companion hlocate
    cases hdocument : Module.ofDocument (some other) (Symbols.document m.symbols) with
    | error error => exact .document _ error htext hdocument
    | ok declared => exact absurd h.ofDocument_companion (not_symbols_of_module hdocument)

/-- **What could not be read as a module still cannot.** -/
theorem unreadable (hne : other.resolve.parts ≠ path.resolve.parts) (hother : tree.Unreadable other) :
    tree'.Unreadable other := by
  by_cases hat : other.resolve.parts = companion.resolve.parts
  · exact h.unreadable_companion hother.not_hasNull hat
  · have haway := not_mem_places hne hat
    rcases hother with ⟨fault, hbytes, hfault⟩ | ⟨text, error, htext, hdocument⟩ |
      ⟨text, declared, theirs, error, htext, hdocument, htheirs, hthere, hsymbols⟩
    · cases hbytes' : tree'.readBytes other with
      | error fault' => exact unreadable_of_readBytes (Unreadable.bytes fault hbytes hfault).not_hasNull hbytes'
      | ok bytes => exact nomatch hbytes.symm.trans (h.sameBut.symm.readBytes haway hbytes')
    · exact .document text error (h.sameBut.readText haway htext) hdocument
    · have hpath := companion_ne_of_namesModule htheirs (Path.namesModule_of_suffix h.suffix)
      have hshared : theirs.resolve.parts ≠ companion.resolve.parts := by
        -- there the symbols of the module itself could be read
        intro hshared
        have hplace := locate_of_contains hthere
        rw [hshared] at hplace
        rcases symbols_at_companion h.read h.symbols hplace with hnone | ⟨-, found, symbols, hfound, hread⟩
        · exact nomatch hthere.symm.trans hnone
        · rw [hfound] at hsymbols
          exact nomatch hsymbols.symm.trans hread
      have haway' := not_mem_places hpath hshared
      obtain ⟨error', hsymbols'⟩ := h.sameBut.exists_error_of_readText haway' hsymbols
      exact .symbols text declared theirs error' (h.sameBut.readText haway htext) hdocument htheirs
        ((h.sameBut.contains haway').trans hthere) hsymbols'

end Rewrites

end FileTree

end JobClosure
