import JobClosure.Proofs.FileTree.Companion
import JobClosure.Proofs.FileTree.Search
import JobClosure.Store.Saving

/-!
# Writes that fail

A module is written in two files, first the module document and then the symbol document. A write can fail
before the first file is touched: the module has no file, a body has no text, or the file cannot be written.
Then nothing has changed. It can also fail between the two files, because the symbol document has no text or
cannot be written. Nothing takes the first file back then, so that the module document is new and the symbol
document is old (`Store.failed_write`).

Two causes do not come from the tree. A module may be handed over with bodies or lines that no document can
hold, and a device may refuse a single file, for example because it is full. They are taken as given
(`WriteSetting`); without them a write is the one of the store (`Store.write_eq_save`).
-/

namespace JobClosure

/-- What decides about a write, apart from the tree. -/
structure WriteSetting where
  /-- The text of the module document, or why a body has none. -/
  document : Except Error String
  /-- The text of the symbol document, or why a location has none. -/
  symbols : Except Error String
  /-- Why a file cannot be written, whatever stands in the tree. -/
  refused : Path → Option StorageFault

namespace WriteSetting

/-- The setting of a module that has both texts, where no file is refused. -/
def ofModule (m : Module) : WriteSetting := ⟨.ok m.document, .ok (Symbols.document m.symbols), fun _ => none⟩

/-- Writes one file. -/
def writeFile (w : WriteSetting) (tree : FileTree) (path : Path) (text : String) : Except Error FileTree :=
  match w.refused path with
  | some fault => .error (.storage fault)
  | none => (tree.writeText path text).mapError .storage

/-- Writes the module document. -/
def writeDocument (w : WriteSetting) (path : Path) (tree : FileTree) : Except Error FileTree := do
  w.writeFile tree path (← w.document)

/-- Writes the symbol document. -/
def writeSymbols (w : WriteSetting) (path : Path) (tree : FileTree) : Except Error FileTree := do
  let companion ← path.symbols.mapError .storage
  w.writeFile tree companion (← w.symbols)

/-- Writes the module document, and then the symbol document if it is wanted. The tree after a failure holds
what was written before it. -/
def writeTo (w : WriteSetting) (path : Path) (withSymbols : Bool) (tree : FileTree) :
    FileTree × Except Error Path :=
  match w.writeDocument path tree with
  | .error error => (tree, .error error)
  | .ok tree =>
    if withSymbols then
      match w.writeSymbols path tree with
      | .error error => (tree, .error error)
      | .ok tree => (tree, .ok path)
    else (tree, .ok path)

/-- Writes a module to the file that it belongs to. -/
def write (w : WriteSetting) (m : Module) (withSymbols : Bool) (tree : FileTree) : FileTree × Except Error Path :=
  match m.path with
  | none => (tree, .error (.noPath m.name))
  | some path => w.writeTo path withSymbols tree

end WriteSetting

/-- Writes a module in a setting. A full store writes nothing. -/
def Store.save (s : Store) (m : Module) (w : WriteSetting) (withSymbols : Bool) : Except Error Path × Store :=
  let (files, result) :=
    if s.full then (s.files, .error (.storage .noSpace)) else w.write m withSymbols s.files
  (result.mapError (.cannotWrite m.name m.path), { s with files })

namespace WriteSetting

variable {w : WriteSetting} {tree tree' : FileTree} {path : Path}

theorem writeDocument_ofModule (m : Module) (path : Path) (tree : FileTree) :
    (ofModule m).writeDocument path tree = (tree.writeText path m.document).mapError .storage := rfl

theorem writeSymbols_ofModule (m : Module) (path : Path) (tree : FileTree) :
    (ofModule m).writeSymbols path tree = (path.symbols >>= fun companion =>
      tree.writeText companion (Symbols.document m.symbols)).mapError .storage := by
  rw [writeSymbols]
  cases path.symbols with
  | error fault => rfl
  | ok companion => rfl

theorem write_ofModule (m : Module) (withSymbols : Bool) (tree : FileTree) :
    (ofModule m).write m withSymbols tree = m.write withSymbols tree := by
  rw [write, Module.write]
  cases m.path with
  | none => rfl
  | some path =>
    dsimp only
    rw [writeTo, Module.writeTo, writeDocument_ofModule]
    cases tree.writeText path m.document with
    | error fault => rfl
    | ok written =>
      cases withSymbols with
      | false => rfl
      | true =>
        dsimp only [Except.mapError]
        rw [writeSymbols_ofModule]
        cases path.symbols >>= fun companion => written.writeText companion (Symbols.document m.symbols) with
        | error fault => rfl
        | ok done => rfl

/-- A file that is written is written with the text, in the tree. -/
theorem writeText_of_writeFile {text : String} (h : w.writeFile tree path text = .ok tree') :
    tree.writeText path text = .ok tree' := by
  unfold writeFile at h
  split at h
  · exact nomatch h
  · exact mapError_eq_ok h

/-- **Where a write can fail**: before the module document is written, or after it. -/
theorem writeTo_fails {withSymbols : Bool} {error : Error}
    (h : w.writeTo path withSymbols tree = (tree', .error error)) :
    (tree' = tree ∧ w.writeDocument path tree = .error error) ∨
      withSymbols = true ∧ w.writeSymbols path tree' = .error error ∧
        ∃ text, w.document = .ok text ∧ tree.writeText path text = .ok tree' := by
  unfold writeTo at h
  split at h
  · rename_i hdocument
    obtain ⟨rfl, herror⟩ := Prod.mk.inj h
    exact .inl ⟨rfl, Except.error.inj herror ▸ hdocument⟩
  · rename_i written hdocument
    obtain ⟨text, htext, hwritten⟩ := bind_eq_ok hdocument
    split at h
    · rename_i hwanted
      split at h
      · rename_i hsymbols
        obtain ⟨rfl, herror⟩ := Prod.mk.inj h
        exact .inr ⟨hwanted, Except.error.inj herror ▸ hsymbols, text, htext, writeText_of_writeFile hwritten⟩
      · exact nomatch (Prod.mk.inj h).2
    · exact nomatch (Prod.mk.inj h).2

end WriteSetting

namespace FileTree

variable {tree tree' : FileTree} {path : Path} {content : ByteArray}

/-- A file has a symbol document at another place, unless it is named like one itself. -/
theorem exists_companion_elsewhere (h : tree.readBytes path = .ok content)
    (hsuffix : path.suffix ≠ Path.symbolSuffix) :
    ∃ companion, path.symbols = .ok companion ∧ companion.resolve.parts ≠ path.resolve.parts := by
  obtain ⟨way, name, hparts, hname, -⟩ := exists_name_of_readBytes h
  refine ⟨_, Path.symbols_eq_ok hparts, fun hsame => hsuffix ?_⟩
  rw [Path.parts_resolve_of_name (Path.parts_withSuffix hparts _) (Path.append_symbolSuffix_ne _),
    Path.parts_resolve_of_name hparts hname, List.append_cancel_left_eq] at hsame
  have hstem := (List.cons.inj hsame).1.trans (Path.eq_stem_append_suffix name)
  have hname : path.name = name := by simp [Path.name, hparts]
  rw [Path.suffix, hname]
  exact (String.append_right_inj _).mp hstem.symm

end FileTree

namespace Store

/-- **A write of the store** is the one of a module that has both texts, where no file is refused. -/
theorem write_eq_save (s : Store) (m : Module) (withSymbols : Bool) :
    s.write m withSymbols = s.save m (.ofModule m) withSymbols := by
  rw [write, save, WriteSetting.write_ofModule]

/-- What a write leaves in the tree after it failed between the two documents: the module document has its new
text, and everything else is as it was. -/
structure WrittenInPart (files files' : FileTree) (path : Path) (text : String) : Prop where
  document : files'.readBytes path = .ok text.toUTF8
  elsewhere : ∀ other : Path, other.resolve.parts ≠ path.resolve.parts → files'.find? other = files.find? other
  companion : path.suffix ≠ Path.symbolSuffix →
    ∃ companion, path.symbols = .ok companion ∧ files'.find? companion = files.find? companion

theorem writtenInPart_of_writeText {files files' : FileTree} {path : Path} {text : String}
    (h : files.writeText path text = .ok files') : WrittenInPart files files' path text := by
  obtain ⟨hlocate, hwrote⟩ := FileTree.wrote_of_writeBytes h
  have hread := hwrote.readBytes_here hlocate
  have helsewhere : ∀ other : Path, other.resolve.parts ≠ path.resolve.parts →
      files'.find? other = files.find? other :=
    fun other hother => hwrote.sameBut.find? (mt List.mem_singleton.mp hother)
  refine ⟨hread, helsewhere, fun hsuffix => ?_⟩
  obtain ⟨companion, hcompanion, hother⟩ := FileTree.exists_companion_elsewhere hread hsuffix
  exact ⟨companion, hcompanion, helsewhere companion hother⟩

/--
**What a failed write leaves behind.**

A write of the store is one of a module that has both texts, where no file is refused. In any setting, a write that
fails is reported as a failure to write that module, and it changes nothing of the store but its files. These are
as they were if the store is full, if the module has no file, or if the module document could not be made or
written. Otherwise the symbol document was wanted and could not be made or written, the module document holds its
new text, and all other files, the symbol document among them, are as they were.
-/
theorem failed_write (s : Store) (m : Module) (withSymbols : Bool) :
    s.write m withSymbols = s.save m (.ofModule m) withSymbols ∧
    ∀ (w : WriteSetting) (error : Error) (s' : Store), s.save m w withSymbols = (.error error, s') →
      ∃ cause, error = .cannotWrite m.name m.path cause ∧ s' = { s with files := s'.files } ∧
        (s'.files = s.files ∧ (s.full = true ∨ m.path = none ∨
            ∃ path, m.path = some path ∧ w.writeDocument path s.files = .error cause) ∨
          ∃ path text, withSymbols = true ∧ m.path = some path ∧ w.document = .ok text ∧
            w.writeSymbols path s'.files = .error cause ∧ WrittenInPart s.files s'.files path text) := by
  refine ⟨s.write_eq_save m withSymbols, fun w error s' h => ?_⟩
  -- a full store is refused before anything is made, so only what follows depends on the setting
  rw [save] at h
  by_cases hfull : s.full = true
  · rw [if_pos hfull] at h
    obtain ⟨hresult, rfl⟩ := Prod.mk.inj h
    exact ⟨_, (Except.error.inj hresult).symm, rfl, .inl ⟨rfl, .inl hfull⟩⟩
  · rw [if_neg hfull] at h
    cases hwrite : w.write m withSymbols s.files with
    | mk files result =>
      rw [hwrite] at h
      obtain ⟨hresult, rfl⟩ := Prod.mk.inj h
      obtain ⟨cause, rfl, rfl⟩ := mapError_eq_error hresult
      refine ⟨cause, rfl, rfl, ?_⟩
      unfold WriteSetting.write at hwrite
      split at hwrite
      · rename_i hpath
        exact .inl ⟨(Prod.mk.inj hwrite).1.symm, .inr (.inl hpath)⟩
      · rename_i path hpath
        rcases WriteSetting.writeTo_fails hwrite with ⟨hfiles, hdocument⟩ |
          ⟨hwanted, hsymbols, text, htext, hwritten⟩
        · exact .inl ⟨hfiles, .inr (.inr ⟨path, hpath, hdocument⟩)⟩
        · exact .inr ⟨path, text, hwanted, hpath, htext, hsymbols, writtenInPart_of_writeText hwritten⟩

end Store

/-! ## A directory in the way

A module has a file in a directory where nothing stands but a directory with the name of its symbol document. -/

namespace Blocked

def path : Path := ⟨["w", "Demo.jmod"], false⟩

def companion : Path := ⟨["w", "Demo.jsym"], false⟩

def demo : Module := { name := "Demo", path := some path }

def store : Store := { files := ⟨[(["w"], .directory), (["w", "Demo.jsym"], .directory)]⟩ }

/-- The files after the module document was written. -/
def written : FileTree := store.files.set ["w", "Demo.jmod"] (.file demo.document.toUTF8)

def error : Error := .cannotWrite "Demo" (some path) (.storage (.isADirectory companion))

theorem writeText_path : store.files.writeText path demo.document = .ok written :=
  FileTree.writeBytes_eq_ok_iff.mpr ⟨by decide, by decide, rfl⟩

theorem write_demo : store.write demo true = (.error error, { store with files := written }) := by
  have hfiles : demo.write true store.files = (written, .error (.storage (.isADirectory companion))) := by
    show demo.writeTo path true store.files = _
    rw [Module.writeTo, writeText_path]
    rfl
  rw [Store.write, hfiles]
  rfl

theorem find?_store : store.files.find? path = .ok none := by decide

theorem find?_written : written.find? path = .ok (some (.file demo.document.toUTF8)) := rfl

/-- **A write that fails leaves a new file**: the module document was not there before, and is there after it. -/
theorem document_left : ∃ s', store.write demo true = (.error error, s') ∧
    store.files.find? path = .ok none ∧ s'.files.find? path = .ok (some (.file demo.document.toUTF8)) :=
  ⟨_, write_demo, find?_store, find?_written⟩

/-- The symbol document is what is left as it was. -/
theorem companion_kept : ∃ s', store.write demo true = (.error error, s') ∧
    s'.files.find? companion = store.files.find? companion ∧
    s'.files.readBytes path = .ok demo.document.toUTF8 := by
  obtain ⟨hsave, hfails⟩ := Store.failed_write store demo true
  obtain ⟨cause, -, -, hleft⟩ := hfails _ _ _ (hsave.symm.trans write_demo)
  refine ⟨_, write_demo, ?_⟩
  -- the file is new, so the failure was not one that leaves all files as they were
  rcases hleft with ⟨hsame, -⟩ | ⟨path', text, -, hpath, htext, -, hpart⟩
  · have hfound := find?_store
    rw [← hsame, find?_written] at hfound
    exact nomatch hfound
  · obtain rfl := Option.some.inj hpath
    obtain rfl := Except.ok.inj htext
    obtain ⟨symbols, hsymbols, hkept⟩ := hpart.companion (by decide)
    obtain rfl : companion = symbols := Except.ok.inj hsymbols
    exact ⟨hkept, hpart.document⟩

end Blocked

end JobClosure
