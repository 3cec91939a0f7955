import JobClosure.Proofs.Metadata.Rewritten
import JobClosure.Proofs.Metadata.Unified

/-!
# Files against texts

A module can be read from the files that it was written to, or loaded from the texts that were written to
them. The two differ in line ends and in nothing else: what is read from the files is what is loaded from the
texts with unified line ends, be it a module or a failure (`Module.readModule_of_write`). So files and texts
say the same of a module without carriage returns, and of a module that can be read they say the same only
then (`Module.files_say_what_texts_say`).
-/

namespace JobClosure

namespace Module

open FileTree

/-- The module at `path` that a module document and a symbol document say. -/
def ofTexts (path companion : Path) (text symbols : String) : Except Error Module := do
  let declared ← asLoad (.cannotParse path) (ofDocument (some path) text)
  let locations ← (Symbols.ofDocument symbols).mapError (.cannotParseSymbols companion)
  .ok { declared with symbols := locations }

/-- What is read at `path` is what is loaded: the content of a module and its symbols, or nothing. -/
def ReadsAs (path : Path) (loaded : Except Error Module) (locations : Except Error Symbols) :
    Except Error Module → Prop
  | .ok m => ∃ declared, loaded = .ok declared ∧ locations = .ok m.symbols ∧
      m = { declared with path := some path, symbols := m.symbols }
  | .error _ => (∃ error, loaded = .error error) ∨ ∃ error, locations = .error error

variable {m : Module} {tree tree' : FileTree} {path companion written : Path}

/-- What two texts say together is what they say one by one. -/
theorem readsAs_ofTexts (path companion : Path) (text symbols : String) :
    ReadsAs path (ofDocument none text) (Symbols.ofDocument symbols) (ofTexts path companion text symbols) := by
  cases hdeclared : ofDocument (some path) text with
  | error error =>
    rw [ofTexts, hdeclared]
    cases hload : ofDocument none text with
    | error error' => exact .inl ⟨error', rfl⟩
    | ok declared => exact nomatch hdeclared.symm.trans (ofDocument_path hload)
  | ok declared =>
    have hload : ofDocument none text = .ok { declared with path := none } := ofDocument_path hdeclared
    have hpath : ofDocument (some path) text = .ok { declared with path := some path } := ofDocument_path hdeclared
    have hsame : declared = { declared with path := some path } := Except.ok.inj (hdeclared.symm.trans hpath)
    rw [ofTexts, hdeclared]
    cases hsymbols : Symbols.ofDocument symbols with
    | error error => exact .inr ⟨error, rfl⟩
    | ok locations => exact ⟨_, hload, rfl, congrArg (fun m : Module => { m with symbols := locations }) hsame⟩

theorem readModule_eq_ofTexts {text symbols : String} (htext : tree.readText path = .ok text)
    (hcompanion : path.symbols = .ok companion) (hthere : tree.contains companion = .ok true)
    (hsymbols : tree.readText companion = .ok symbols) :
    tree.readModule path = ofTexts path companion text symbols := by
  rw [readModule_of_text htext, readSymbols_of_contains hcompanion hthere, hsymbols]
  rfl

/-! ## Written and read -/

/-- **What is read from the files of a module is what its texts say**, with unified line ends. -/
theorem readModule_of_write (hpath : m.path = some path) (hname : path.NamesModule)
    (hwrite : m.write true tree = (tree', .ok written)) :
    written = path ∧ ∃ companion, path.symbols = .ok companion ∧ tree'.readModule path
      = ofTexts path companion (Text.unified m.document) (Text.unified (Symbols.document m.symbols)) := by
  obtain ⟨hwritten, companion, between, hcompanion, hfirst, hsecond⟩ := (write_eq_ok_iff hpath).mp hwrite
  obtain ⟨hlocate, hwrote⟩ := wrote_of_writeBytes hfirst
  obtain ⟨hplace, hwrote'⟩ := wrote_of_writeBytes hsecond
  -- the symbols are written second, and not over the module
  have hapart := companion_ne_of_namesModule hcompanion hname
  have htext := readText_of_toUTF8 (hwrote'.readBytes_elsewhere (Ne.symm hapart) (hwrote.readBytes_here hlocate))
  have hsymbols := readText_of_toUTF8 (hwrote'.readBytes_here hplace)
  exact ⟨hwritten, companion, hcompanion,
    readModule_eq_ofTexts htext hcompanion (hwrote'.contains_here hplace) hsymbols⟩

/-- Texts without carriage returns are read as they were written. -/
theorem readsAs_of_write (hpath : m.path = some path) (hname : path.NamesModule)
    (hwrite : m.write true tree = (tree', .ok written)) (hreturn : ¬ m.toForm.Holds '\r')
    (hreturn' : ¬ (Symbols.toForm m.symbols).Holds '\r') :
    ReadsAs path (ofDocument none m.document) (Symbols.ofDocument (Symbols.document m.symbols))
      (tree'.readModule path) := by
  obtain ⟨-, companion, -, hread⟩ := readModule_of_write hpath hname hwrite
  have hdocument : Text.unified m.document = m.document :=
    Text.unified_eq_self.mpr fun hmem => hreturn (Form.holds_of_return_mem_document hmem)
  have hsymbols : Text.unified (Symbols.document m.symbols) = Symbols.document m.symbols :=
    Text.unified_eq_self.mpr fun hmem => hreturn' (Form.holds_of_return_mem_document hmem)
  rw [hread, hdocument, hsymbols]
  exact readsAs_ofTexts path companion _ _

/-! ## Modules that can be read -/

/-- A module whose files can be read. Line ends need not survive. -/
structure Legible (m : Module) : Prop where
  spelled : m.Spelled
  bodies : m.LegibleBodies
  unbroken : m.UnbrokenBodies
  distinctSymbols : Symbols.Distinct m.symbols
  countableSymbols : Symbols.Countable m.symbols

/-- The module that is read from the files of a legible one. -/
def throughFiles (m : Module) (path : Path) : Module :=
  { m.asWritten.unified.asRead (some path) with
    symbols := Symbols.ofEntries ((Symbols.sorted m.symbols).map Symbols.unifiedEntry) }

namespace Legible

/-- **A legible module comes back with unified line ends.** -/
theorem readModule_of_write (h : m.Legible) (hpath : m.path = some path) (hname : path.NamesModule)
    (hwrite : m.write true tree = (tree', .ok written)) : tree'.readModule path = .ok (m.throughFiles path) := by
  obtain ⟨-, companion, -, hread⟩ := Module.readModule_of_write hpath hname hwrite
  rw [hread, ofTexts, ofDocument_unified h.spelled h.bodies h.unbroken,
    Symbols.ofDocument_unified h.countableSymbols]
  rfl

theorem loaded (h : m.Legible) : ofDocument none m.document = .ok (m.asWritten.asRead none) ∧
    Symbols.ofDocument (Symbols.document m.symbols) = .ok (Symbols.sorted m.symbols) :=
  ⟨ofDocument_document_asWritten h.spelled h.bodies none,
    Symbols.ofDocument_document h.distinctSymbols h.countableSymbols⟩

/-- What comes back is what is loaded exactly if there was no carriage return. -/
theorem readsAs_throughFiles_iff (h : m.Legible) (path : Path) :
    ReadsAs path (ofDocument none m.document) (Symbols.ofDocument (Symbols.document m.symbols))
        (.ok (m.throughFiles path))
      ↔ ¬ m.toForm.Holds '\r' ∧ ¬ (Symbols.toForm m.symbols).Holds '\r' := by
  obtain ⟨hload, hlocations⟩ := h.loaded
  rw [hload, hlocations, ← asRead_unified_eq_iff h.spelled (some path),
    ← Symbols.ofEntries_unified_eq_iff h.distinctSymbols]
  constructor
  · rintro ⟨declared, hdeclared, hsymbols, hsame⟩
    obtain rfl := Except.ok.inj hdeclared
    -- the content is compared without the symbols, which are compared on their own
    have hcontent := congrArg (fun m : Module => m.asRead (some path)) hsame
    exact ⟨hcontent, (Except.ok.inj hsymbols).symm⟩
  · rintro ⟨hsame, hsymbols⟩
    refine ⟨_, rfl, congrArg Except.ok hsymbols.symm, ?_⟩
    exact congrArg (fun m' : Module => { m' with symbols := (m.throughFiles path).symbols }) hsame

end Legible

/-- **Files say what texts say, up to line ends.** A module that was written is read as its texts with unified
line ends, whatever they are. So what is read is what is loaded from the texts if they have no carriage return;
and of a module that can be read, it is only then. -/
theorem files_say_what_texts_say (hpath : m.path = some path) (hname : path.NamesModule)
    (hwrite : m.write true tree = (tree', .ok written)) :
    written = path ∧
      (∃ companion, path.symbols = .ok companion ∧ tree'.readModule path
        = ofTexts path companion (Text.unified m.document) (Text.unified (Symbols.document m.symbols))) ∧
      (¬ m.toForm.Holds '\r' → ¬ (Symbols.toForm m.symbols).Holds '\r' →
        ReadsAs path (ofDocument none m.document) (Symbols.ofDocument (Symbols.document m.symbols))
          (tree'.readModule path)) ∧
      (m.Legible → tree'.readModule path = .ok (m.throughFiles path) ∧
        (ReadsAs path (ofDocument none m.document) (Symbols.ofDocument (Symbols.document m.symbols))
            (tree'.readModule path)
          ↔ ¬ m.toForm.Holds '\r' ∧ ¬ (Symbols.toForm m.symbols).Holds '\r')) := by
  obtain ⟨hwritten, hread⟩ := readModule_of_write hpath hname hwrite
  refine ⟨hwritten, hread, readsAs_of_write hpath hname hwrite, fun hlegible => ?_⟩
  have hthrough := hlegible.readModule_of_write hpath hname hwrite
  rw [hthrough]
  exact ⟨rfl, hlegible.readsAs_throughFiles_iff path⟩

/-! A directory in which the module with the body that needs escapes is written, and a module that refers to a
name with a carriage return. -/

namespace Filed

def place : Path := ⟨["w", "Demo.jmod"], false⟩

def directory : FileTree := ⟨[(["w"], .directory)]⟩

theorem namesModule_place : place.NamesModule := ⟨["w"], "Demo", rfl⟩

def demo : Module :=
  { Sample.demo with path := some place, symbols := [("Demo.Job::Run(not a type)", ⟨"Job.cs", 3, 7⟩)] }

theorem legible_demo : demo.Legible where
  spelled := Sample.writable_demo.spelled
  bodies type htype method hmethod body hbody form hform :=
    (Sample.writable_demo.bodies type htype method hmethod body hbody form hform).1
  unbroken := by
    refine List.forall_mem_singleton.mpr (List.forall_mem_singleton.mpr fun body hbody => ?_)
    rw [← Option.some.inj hbody]
    have hcall : '\r' ∉ "call".toList := by decide
    exact Form.unbrokenAll_iff.mp ⟨⟨hcall, trivial, trivial, ⟨trivial, trivial⟩, trivial⟩, trivial, trivial⟩
  distinctSymbols := List.nodup_singleton _
  countableSymbols := List.forall_mem_singleton.mpr ⟨show 1 ≤ 4300 by decide, show 1 ≤ 4300 by decide⟩

theorem noReturn_demo : ¬ demo.toForm.Holds '\r' ∧ ¬ (Symbols.toForm demo.symbols).Holds '\r' := by
  refine ⟨(Form.unified_eq_self_iff _).mp rfl, ?_⟩
  rw [demo, Symbols.toForm, Symbols.sorted, List.mergeSort_singleton]
  exact (Form.unified_eq_self_iff _).mp rfl

theorem demo_through_files : demo.path = some place ∧ place.NamesModule ∧ demo.Legible ∧
    ∃ tree, demo.write true directory = (tree, .ok place) ∧ tree.readModule place = .ok (demo.throughFiles place) ∧
      ReadsAs place (ofDocument none demo.document) (Symbols.ofDocument (Symbols.document demo.symbols))
        (tree.readModule place) := by
  obtain ⟨tree, hwrite⟩ : ∃ tree, demo.write true directory = (tree, .ok place) := ⟨_, rfl⟩
  obtain ⟨-, -, hclear, hlegible⟩ := files_say_what_texts_say rfl namesModule_place hwrite
  exact ⟨rfl, namesModule_place, legible_demo, tree, hwrite, (hlegible legible_demo).1,
    hclear noReturn_demo.1 noReturn_demo.2⟩

def referring : Module := { name := "Demo", path := some place, references := ["a\rb"] }

theorem legible_referring : referring.Legible where
  spelled := List.forall_mem_nil _
  bodies := List.forall_mem_nil _
  unbroken := List.forall_mem_nil _
  distinctSymbols := List.nodup_nil
  countableSymbols := List.forall_mem_nil _

/-- The reference is loaded from the text of the module as it was, and read from its file with a line feed. -/
theorem return_lost : ∃ tree declared read, referring.write true directory = (tree, .ok place) ∧
    ofDocument none referring.document = .ok declared ∧ declared.references = ["a\rb"] ∧
      tree.readModule place = .ok read ∧ read.references = ["a\nb"] := by
  obtain ⟨tree, hwrite⟩ : ∃ tree, referring.write true directory = (tree, .ok place) := ⟨_, rfl⟩
  exact ⟨tree, _, _, hwrite, legible_referring.loaded.1, rfl,
    legible_referring.readModule_of_write rfl namesModule_place hwrite, rfl⟩

end Filed

end Module

end JobClosure
