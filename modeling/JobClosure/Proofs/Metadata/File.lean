import JobClosure.Metadata.File
import JobClosure.Proofs.FileTree.Companion
import JobClosure.Proofs.Metadata.Read
import JobClosure.Proofs.Metadata.RoundTrip
import JobClosure.Proofs.Metadata.Symbols
import JobClosure.Proofs.Text.LineEnds

/-!
# A written module is read back from its file

A module that is written over a file that could be read is read back from there, with its bodies as they
are written and its symbols in ascending order (`Module.readModule_of_write`). The module is written to the
resolved path of the file, the symbols beside it; both places are those that reading the original path leads
to. They are different places, because no document is both a module and a table of symbols.

Documents pass through text files, and those do not keep carriage returns. So neither the form of the module
nor that of the symbols may hold one.
-/

namespace JobClosure

namespace FileTree

variable {tree tree' : FileTree} {path : Path}

/-! ## What reading consists of -/

theorem readText_eq_ok_iff {text : String} :
    tree.readText path = .ok text ↔ ∃ bytes decoded, tree.readBytes path = .ok bytes ∧
      Text.decode bytes = .ok decoded ∧ text = String.ofList (Text.unifyLineEnds decoded.toList) := by
  constructor
  · intro h
    obtain ⟨bytes, hbytes, h⟩ := bind_eq_ok h
    obtain ⟨decoded, hdecoded, h⟩ := bind_eq_ok h
    exact ⟨bytes, decoded, mapError_eq_ok hbytes, mapError_eq_ok hdecoded, (Except.ok.inj h).symm⟩
  · rintro ⟨bytes, decoded, hbytes, hdecoded, rfl⟩
    rw [readText, hbytes]
    show ((Text.decode bytes).mapError Error.encoding >>= fun text => Except.ok _) = _
    rw [hdecoded]
    rfl

/-- A text is read from its bytes with unified line ends. -/
theorem readText_of_toUTF8 {text : String} (h : tree.readBytes path = .ok text.toUTF8) :
    tree.readText path = .ok (Text.unified text) :=
  readText_eq_ok_iff.mpr ⟨_, text, h, Text.decode_toUTF8 text, rfl⟩

/-- A text without carriage returns is read from its bytes. -/
theorem readText_of_readBytes {text : String} (h : tree.readBytes path = .ok text.toUTF8)
    (hreturn : '\r' ∉ text.toList) : tree.readText path = .ok text := by
  rw [readText_of_toUTF8 h, Text.unified_eq_self.mpr hreturn]

/-- Two paths to one place read the same bytes. -/
theorem readBytes_of_locate {other : Path} {place : List String} {bytes : ByteArray}
    (h : tree.locate path = .ok place) (hother : tree.locate other = .ok place)
    (hbytes : tree.readBytes path = .ok bytes) : tree.readBytes other = .ok bytes := by
  have hentry := (readBytes_eq_ok_iff.mp hbytes).2
  rw [← locate_eq_ok h] at hentry
  refine readBytes_eq_ok_iff.mpr ⟨?_, ?_⟩
  · rw [← locate_eq_ok hother, hother]
  · rw [← locate_eq_ok hother, hentry]

/-- Two paths to one place read the same text. -/
theorem readText_of_locate {other : Path} {place : List String} {text : String}
    (h : tree.locate path = .ok place) (hother : tree.locate other = .ok place)
    (htext : tree.readText path = .ok text) : tree.readText other = .ok text := by
  obtain ⟨bytes, decoded, hbytes, hdecoded, rfl⟩ := readText_eq_ok_iff.mp htext
  exact readText_eq_ok_iff.mpr ⟨bytes, decoded, readBytes_of_locate h hother hbytes, hdecoded, rfl⟩

/-- The symbols of a module are those of its companion, if there is one. -/
theorem readSymbols_of_contains {companion : Path} (hcompanion : path.symbols = .ok companion)
    (hthere : tree.contains companion = .ok true) : tree.readSymbols path
      = (tree.readText companion >>= Symbols.ofDocument).mapError (.cannotParseSymbols companion) := by
  rw [readSymbols, hcompanion]
  show ((tree.contains companion).mapError Error.storage >>= fun there => _) = _
  rw [hthere]
  rfl

theorem readSymbols_eq_ok_iff {symbols : Symbols} :
    tree.readSymbols path = .ok symbols ↔ ∃ companion, path.symbols = .ok companion ∧
      (tree.contains companion = .ok false ∧ symbols = [] ∨
        tree.contains companion = .ok true ∧
          ∃ text, tree.readText companion = .ok text ∧ Symbols.ofDocument text = .ok symbols) := by
  constructor
  · intro h
    obtain ⟨companion, hcompanion, h⟩ := bind_eq_ok h
    obtain ⟨there, hthere, h⟩ := bind_eq_ok h
    refine ⟨companion, mapError_eq_ok hcompanion, ?_⟩
    cases there with
    | false => exact .inl ⟨mapError_eq_ok hthere, (Except.ok.inj h).symm⟩
    | true =>
      obtain ⟨text, htext, hread⟩ := bind_eq_ok (mapError_eq_ok h)
      exact .inr ⟨mapError_eq_ok hthere, text, htext, hread⟩
  · rintro ⟨companion, hcompanion, ⟨hthere, rfl⟩ | ⟨hthere, text, htext, hread⟩⟩
    · rw [readSymbols, hcompanion]
      show ((tree.contains companion).mapError Error.storage >>= fun there => _) = _
      rw [hthere]
      rfl
    · rw [readSymbols_of_contains hcompanion hthere, htext]
      show (Symbols.ofDocument text).mapError (Error.cannotParseSymbols companion) = _
      rw [hread]
      rfl

theorem readModule_eq_ok_iff {m : Module} :
    tree.readModule path = .ok m ↔ ∃ text declared symbols, tree.readText path = .ok text ∧
      Module.ofDocument (some path) text = .ok declared ∧ tree.readSymbols path = .ok symbols ∧
        m = { declared with symbols } := by
  constructor
  · intro h
    obtain ⟨text, htext, h⟩ := bind_eq_ok h
    obtain ⟨declared, hdeclared, h⟩ := bind_eq_ok h
    obtain ⟨symbols, hsymbols, h⟩ := bind_eq_ok h
    exact ⟨text, declared, symbols, mapError_eq_ok htext, mapError_eq_ok hdeclared, hsymbols,
      (Except.ok.inj h).symm⟩
  · rintro ⟨text, declared, symbols, htext, hdeclared, hsymbols, rfl⟩
    rw [readModule, htext]
    show (asLoad (.cannotParse path) (Module.ofDocument (some path) text) >>= fun declared =>
      tree.readSymbols path >>= fun symbols => Except.ok { declared with symbols }) = _
    rw [hdeclared]
    show (tree.readSymbols path >>= fun symbols => Except.ok { declared with symbols }) = _
    rw [hsymbols]
    rfl

/-- A module without a symbol document is what its text declares. -/
theorem readModule_of_alone {companion : Path} {text : String} {m : Module} (hcompanion : path.symbols = .ok companion)
    (habsent : tree.contains companion = .ok false) (hbytes : tree.readBytes path = .ok text.toUTF8)
    (hreturn : '\r' ∉ text.toList) (hread : Module.ofDocument (some path) text = .ok m) (hnone : m.symbols = []) :
    tree.readModule path = .ok m := by
  have hsymbols : tree.readSymbols path = .ok [] :=
    readSymbols_eq_ok_iff.mpr ⟨companion, hcompanion, .inl ⟨habsent, rfl⟩⟩
  refine readModule_eq_ok_iff.mpr ⟨text, m, [], readText_of_readBytes hbytes hreturn, hread, hsymbols, ?_⟩
  rw [← hnone]

/-- A module that was read belongs to the file that it was read from. -/
theorem path_of_readModule {m : Module} (h : tree.readModule path = .ok m) : m.path = some path := by
  obtain ⟨text, declared, symbols, -, hdeclared, -, rfl⟩ := readModule_eq_ok_iff.mp h
  exact congrArg Module.path (Except.ok.inj (hdeclared.symm.trans (Module.ofDocument_path hdeclared)))

/-! ## A module and its symbols -/

/-- A document that is read as a module is no table of symbols. -/
theorem not_symbols_of_module {text : String} {module : Option Path} {m : Module} {symbols : Symbols}
    (h : Module.ofDocument module text = .ok m) : Symbols.ofDocument text ≠ .ok symbols := by
  intro hsymbols
  obtain ⟨form, hform, h⟩ := bind_eq_ok h
  obtain ⟨form', hform', hsymbols⟩ := bind_eq_ok hsymbols
  obtain rfl := Except.ok.inj ((mapError_eq_ok hform).symm.trans (mapError_eq_ok hform'))
  have hhead : form.head? = some "module" := by
    unfold Module.ofForm at h
    split at h
    · rename_i hhead _
      exact hhead
    · exact nomatch h
  rw [hhead] at hsymbols
  exact nomatch hsymbols

/-- What stands at a place that a path leads to. -/
theorem contains_of_locate {place : List String} (h : tree.locate path = .ok place) :
    tree.contains path = .ok (tree.entry? place).isSome := by
  rw [contains, find?, h]
  rfl

/-- Symbols at one place are the same symbols. -/
theorem readSymbols_of_locate {other companion companion' : Path} {place : List String} {symbols : Symbols}
    (hcompanion : path.symbols = .ok companion) (hcompanion' : other.symbols = .ok companion')
    (h : tree.locate companion = .ok place) (h' : tree.locate companion' = .ok place)
    (hsymbols : tree.readSymbols path = .ok symbols) : tree.readSymbols other = .ok symbols := by
  obtain ⟨found, hfound, hthere⟩ := readSymbols_eq_ok_iff.mp hsymbols
  obtain rfl := Except.ok.inj (hcompanion.symm.trans hfound)
  have hsame : tree.contains companion' = tree.contains companion := by
    rw [contains_of_locate h, contains_of_locate h']
  refine readSymbols_eq_ok_iff.mpr ⟨companion', hcompanion', ?_⟩
  rw [hsame]
  rcases hthere with hnone | ⟨hthere, text, htext, hread⟩
  · exact .inl hnone
  · exact .inr ⟨hthere, text, readText_of_locate h h' htext, hread⟩

/-- **A module that can be read has its symbols at a place of their own**, which both its path and its
resolved path lead to. -/
theorem exists_symbols_of_readModule {m : Module} (h : tree.readModule path = .ok m) :
    ∃ companion resolved, path.symbols = .ok companion ∧ path.resolve.symbols = .ok resolved ∧
      resolved.resolve.parts = companion.resolve.parts ∧ tree.locate path = .ok path.resolve.parts ∧
      tree.locate companion = .ok companion.resolve.parts ∧ companion.resolve.parts ≠ path.resolve.parts := by
  obtain ⟨text, declared, symbols, htext, hdeclared, hsymbols, -⟩ := readModule_eq_ok_iff.mp h
  obtain ⟨bytes, decoded, hbytes, -, -⟩ := readText_eq_ok_iff.mp htext
  obtain ⟨companion, resolved, hcompanion, hresolved, hsame, hlocate⟩ := exists_companion hbytes
  obtain ⟨found, hfound, hthere⟩ := readSymbols_eq_ok_iff.mp hsymbols
  obtain rfl := Except.ok.inj (hcompanion.symm.trans hfound)
  have hplace : tree.locate companion = .ok companion.resolve.parts := by
    rcases hthere with ⟨hthere, -⟩ | ⟨hthere, -⟩
    · exact hlocate false hthere
    · exact hlocate true hthere
  obtain ⟨hpath, hentry⟩ := readBytes_eq_ok_iff.mp hbytes
  refine ⟨companion, resolved, hcompanion, hresolved, hsame, hpath, hplace, ?_⟩
  intro heq
  -- the one file would be read as a module and as its symbols
  have hcontains := contains_of_locate hplace
  rw [heq] at hplace
  rw [heq, hentry] at hcontains
  rcases hthere with ⟨hthere, -⟩ | ⟨-, text', htext', hread⟩
  · exact nomatch hcontains.symm.trans hthere
  · obtain rfl := Except.ok.inj (htext'.symm.trans (readText_of_locate hpath hplace htext))
    exact not_symbols_of_module hdeclared hread

/-- **The resolved path of a file** reads the same module, if it reads one. -/
theorem readModule_resolve {m other : Module} (h : tree.readModule path = .ok m)
    (hother : tree.readModule path.resolve = .ok other) : other = { m with path := some path.resolve } := by
  obtain ⟨companion, resolved, hcompanion, hresolved, hsame, hlocate, hplace, -⟩ := exists_symbols_of_readModule h
  obtain ⟨resolved', -, hresolved', -, -, hlocate', hplace', -⟩ := exists_symbols_of_readModule hother
  obtain rfl := Except.ok.inj (hresolved.symm.trans hresolved')
  rw [hsame] at hplace'
  rw [Path.resolve_resolve] at hlocate'
  obtain ⟨text, declared, symbols, htext, hdeclared, hsymbols, rfl⟩ := readModule_eq_ok_iff.mp h
  obtain ⟨text', declared', symbols', htext', hdeclared', hsymbols', rfl⟩ := readModule_eq_ok_iff.mp hother
  obtain rfl := Except.ok.inj (htext'.symm.trans (readText_of_locate hlocate hlocate' htext))
  obtain rfl := Except.ok.inj (hdeclared'.symm.trans (Module.ofDocument_path hdeclared))
  obtain rfl := Except.ok.inj
    (hsymbols'.symm.trans (readSymbols_of_locate hcompanion hresolved hplace hplace' hsymbols))
  rfl

end FileTree

/-! ## Writing and reading again -/

namespace Module

open FileTree

/-- A module that its files bring back, its bodies as they are written and its symbols in ascending order. -/
structure Storable (m : Module) : Prop where
  spelled : m.Spelled
  bodies : m.LegibleBodies
  noReturn : ¬ m.toForm.Holds '\r'
  distinctSymbols : Symbols.Distinct m.symbols
  countableSymbols : Symbols.Countable m.symbols
  noReturnInSymbols : ¬ (Symbols.toForm m.symbols).Holds '\r'

/-- What is read from the files of a module. -/
def asStored (m : Module) (path : Path) : Module :=
  { m.asWritten.asRead (some path) with symbols := Symbols.sorted m.symbols }

variable {tree tree' : FileTree} {path : Path}

/-- A module is written in two steps, its document first. -/
theorem write_eq_ok_iff {m : Module} {place written : Path} (hpath : m.path = some place) :
    m.write true tree = (tree', .ok written) ↔ written = place ∧ ∃ companion between,
      place.symbols = .ok companion ∧ tree.writeBytes place m.document.toUTF8 = .ok between ∧
        between.writeBytes companion (Symbols.document m.symbols).toUTF8 = .ok tree' := by
  have hwrite : m.write true tree = m.writeTo place true tree := by rw [write, hpath]
  rw [hwrite]
  constructor
  · intro h
    unfold writeTo at h
    split at h
    · exact nomatch (Prod.mk.inj h).2
    · rename_i between hfirst
      rw [if_pos rfl] at h
      cases hcompanion : place.symbols with
      | error fault =>
        rw [hcompanion] at h
        exact nomatch (Prod.mk.inj h).2
      | ok companion =>
        rw [hcompanion] at h
        split at h
        · exact nomatch (Prod.mk.inj h).2
        · rename_i after hsecond
          obtain ⟨rfl, hwritten⟩ := Prod.mk.inj h
          exact ⟨(Except.ok.inj hwritten).symm, companion, between, rfl, hfirst, hsecond⟩
  · rintro ⟨rfl, companion, between, hcompanion, hfirst, hsecond⟩
    have hfirst : tree.writeText written m.document = .ok between := hfirst
    have hsecond : (Except.ok companion >>= fun symbols =>
        between.writeText symbols (Symbols.document m.symbols)) = .ok tree' := hsecond
    rw [writeTo, hfirst]
    dsimp only
    rw [if_pos rfl, hcompanion, hsecond]

/-- **A module that is written over another one is read back.** -/
theorem Storable.readModule_of_write {m before : Module} {written : Path} (h : m.Storable)
    (hbefore : tree.readModule path = .ok before) (hpath : m.path = some path.resolve)
    (hwrite : m.write true tree = (tree', .ok written)) : tree'.readModule path = .ok (m.asStored path) := by
  obtain ⟨companion, resolved, hcompanion, hresolved, hsame, hlocate, hplace, hapart⟩ :=
    exists_symbols_of_readModule hbefore
  obtain ⟨-, found, between, hfound, hfirst, hsecond⟩ := (write_eq_ok_iff hpath).mp hwrite
  obtain rfl := Except.ok.inj (hresolved.symm.trans hfound)
  obtain ⟨hto, hwrote⟩ := wrote_of_writeBytes hfirst
  obtain ⟨hto', hwrote'⟩ := wrote_of_writeBytes hsecond
  rw [Path.resolve_resolve] at hwrote
  rw [hsame] at hwrote'
  have hreturn : '\r' ∉ m.document.toList := fun hmem => h.noReturn (Form.holds_of_return_mem_document hmem)
  have hreturn' : '\r' ∉ (Symbols.document m.symbols).toList :=
    fun hmem => h.noReturnInSymbols (Form.holds_of_return_mem_document hmem)
  -- the module document is where it was, and the symbols did not overwrite it
  have htext : tree'.readText path = .ok m.document :=
    readText_of_readBytes (hwrote'.readBytes_elsewhere (Ne.symm hapart) (hwrote.readBytes_here hlocate)) hreturn
  have hthere : tree'.contains companion = .ok true := hwrote'.contains_here (hwrote.locate hplace)
  have htext' : tree'.readText companion = .ok (Symbols.document m.symbols) :=
    readText_of_readBytes (hwrote'.readBytes_here (hwrote.locate hplace)) hreturn'
  have hsymbols : tree'.readSymbols path = .ok (Symbols.sorted m.symbols) :=
    readSymbols_eq_ok_iff.mpr ⟨companion, hcompanion, .inr ⟨hthere, _, htext',
      Symbols.ofDocument_document h.distinctSymbols h.countableSymbols⟩⟩
  exact readModule_eq_ok_iff.mpr ⟨m.document, _, _, htext,
    ofDocument_document_asWritten h.spelled h.bodies (some path), hsymbols, rfl⟩

end Module

end JobClosure
