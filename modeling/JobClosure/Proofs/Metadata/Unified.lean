import JobClosure.Proofs.Form.Unified
import JobClosure.Proofs.Metadata.RoundTrip
import JobClosure.Proofs.Metadata.Symbols
import JobClosure.Proofs.TypeRef.Mangling

/-!
# Documents that went through a file

The line ends of a document are unified wherever they stand, so names, references and bodies come back
with unified line ends (`Module.ofDocument_unified`), and so do the members and the files of symbols
(`Symbols.ofDocument_unified`). Spellings of references have no line ends. What comes back is what was
written exactly if there is no carriage return in it (`Module.asRead_unified_eq_iff`,
`Symbols.ofEntries_unified_eq_iff`).
-/

namespace JobClosure

open Form (unifiedAll unifiedAll_eq_map)

/-! ## References -/

/-- The parameter of the owner with unified line ends. -/
def Parameter.unified (p : Parameter) : Parameter := { p with owner := Text.unified p.owner }

/-- The reference with unified line ends. Only the owners of parameters may have any. -/
def TypeRef.unified (ref : TypeRef) : TypeRef :=
  ⟨ref.name, TypeArg.replaceAll (fun p => .param p.unified) ref.args⟩

namespace TypeArg

mutual

/-- An argument is spelled by the names of its parameters, whoever owns them. -/
theorem spell_replace {f : Parameter → TypeArg} (h : ∀ p, (f p).spell = p.spell) :
    ∀ arg : TypeArg, (arg.replace f).spell = arg.spell
  | .param p => by rw [replace, h, spell]
  | .named _ [] => by rw [replace, replaceAll]
  | .named _ (arg :: rest) => by
    rw [replace, replaceAll, spell, spell, spell_replace h arg, spellAll_replaceAll h rest]

theorem spellAll_replaceAll {f : Parameter → TypeArg} (h : ∀ p, (f p).spell = p.spell) :
    ∀ args : List TypeArg, spellAll (replaceAll f args) = spellAll args
  | [] => by rw [replaceAll]
  | arg :: rest => by rw [replaceAll, spellAll, spellAll, spell_replace h arg, spellAll_replaceAll h rest]

end

mutual

theorem spellable_replace {f : Parameter → TypeArg} (h : ∀ p, Spelling.isWord p.name = true → (f p).Spellable) :
    ∀ arg : TypeArg, arg.Spellable → (arg.replace f).Spellable
  | .param p, hp => by
    rw [replace]
    exact h p hp
  | .named _ args, ⟨hname, hargs⟩ => by
    rw [replace, Spellable]
    exact ⟨hname, spellableAll_replaceAll h args hargs⟩

theorem spellableAll_replaceAll {f : Parameter → TypeArg} (h : ∀ p, Spelling.isWord p.name = true → (f p).Spellable) :
    ∀ args : List TypeArg, SpellableAll args → SpellableAll (replaceAll f args)
  | [], _ => by
    rw [replaceAll]
    trivial
  | arg :: rest, ⟨harg, hrest⟩ => by
    rw [replaceAll]
    exact ⟨spellable_replace h arg harg, spellableAll_replaceAll h rest hrest⟩

end

end TypeArg

namespace TypeRef

theorem toArg_unified (ref : TypeRef) : ref.unified.toArg = ref.toArg.replace fun p => .param p.unified := rfl

theorem spell_unified (ref : TypeRef) : ref.unified.spell = ref.spell := by
  rw [spell, toArg_unified, TypeArg.spell_replace fun p => rfl, spell]

theorem unified_spell {ref : TypeRef} (h : ref.toArg.Spellable) : Text.unified ref.spell = ref.spell :=
  Text.unified_eq_self.mpr (spellingText_spell ref.toArg h).not_mem_return

end TypeRef

/-! ## Modules -/

/-- The type with unified line ends. -/
def TypeDef.unified (type : TypeDef) : TypeDef := type.recoded Form.unified Text.unified TypeRef.unified

/-- The module with unified line ends, as far as its document goes. -/
def Module.unified (m : Module) : Module := m.recoded Form.unified Text.unified TypeRef.unified

theorem not_mem_return_of_mem_heads : ∀ head ∈ heads, '\r' ∉ head.toList := by decide

theorem recoding_unified : Recoding Form.unified Text.unified where
  text _ := rfl
  head head hhead := by rw [Form.unified, Text.unified_eq_self.mpr (not_mem_return_of_mem_heads head hhead)]
  list items := by rw [Form.unified, unifiedAll_eq_map]

theorem inherits_unbroken : Inherits Form.Unbroken where
  text _ := trivial
  head := not_mem_return_of_mem_heads
  list _ hitems := Form.unbrokenAll_iff.mpr hitems

namespace TypeDef

variable {module : String} {type : TypeDef}

theorem refs_unified (type : TypeDef) : type.unified.refs = type.refs.map TypeRef.unified := by
  have hbase : (type.base.map TypeRef.unified).toList = type.base.toList.map TypeRef.unified := by
    cases type.base <;> rfl
  simp [refs, unified, recoded, hbase, Field.recoded]

/-- A parameter that occurs in a reference is declared under its unified owner. -/
theorem declares_unified {p : Parameter} (hword : Spelling.isWord p.name = true) (h : type.scope.Declares p) :
    type.unified.scope.Declares p.unified := by
  unfold Scope.Declares at h ⊢
  split at h
  · exact nomatch h.1
  · rename_i hmark
    have hname : Text.unified p.name = p.name := Text.unified_eq_self.mpr fun hmem =>
      absurd (isNameChar_of_mem_word hword '\r' hmem) (by decide)
    rw [if_neg (show ¬ p.unified.ofMethod = true from hmark)]
    refine ⟨congrArg Text.unified h.1, ?_⟩
    show p.name ∈ type.genericParams.map Text.unified
    rw [← hname]
    exact List.mem_map_of_mem h.2

theorem Spelled.unified (h : type.Spelled module) : type.unified.Spelled (Text.unified module) := by
  have hparam : ∀ p : Parameter, Spelling.isWord p.name = true → (TypeArg.param p.unified).Spellable := fun p hp => hp
  refine ⟨congrArg Text.unified h.ofModule, ?_, ?_⟩
  · rw [refs_unified, List.forall_mem_map]
    intro ref href
    obtain ⟨hspellable, hwithin⟩ := h.refs ref href
    rw [TypeRef.toArg_unified]
    refine ⟨TypeArg.spellable_replace hparam _ hspellable, fun q hq => ?_⟩
    obtain ⟨p, hp, hq⟩ := TypeArg.mem_occurrences_replace.mp hq
    obtain rfl := List.mem_singleton.mp hq
    exact declares_unified (((TypeArg.spellable_iff _).mp hspellable).2 p hp) (hwithin p hp)
  · refine List.forall_mem_map.mpr fun method hmethod => ?_
    obtain ⟨htype, hmodule⟩ := h.methods method hmethod
    exact ⟨congrArg Text.unified htype, congrArg Text.unified hmodule⟩

end TypeDef

namespace Module

variable {m : Module}

/-- The symbols in the bodies of a module have no carriage return. -/
def UnbrokenBodies (m : Module) : Prop :=
  ∀ type ∈ m.types, ∀ method ∈ type.methods, ∀ body ∈ method.body, ∀ form ∈ body, form.Unbroken

theorem Spelled.unified (h : m.Spelled) : m.unified.Spelled :=
  List.forall_mem_map.mpr fun type htype => (h type htype).unified

/-- The unified form of a module is that of the unified module: spellings have no line ends. -/
theorem Spelled.unified_toForm (h : m.Spelled) : m.toForm.unified = m.unified.toForm :=
  recoding_unified.module fun type htype ref href =>
    (TypeRef.unified_spell ((h type htype).refs ref href).1).trans ref.spell_unified.symm

/-- **What the file of a module document says** is the module with unified line ends. -/
theorem ofDocument_unified (h : m.Spelled) (hlegible : m.LegibleBodies) (hunbroken : m.UnbrokenBodies)
    (path : Option Path) : ofDocument path (Text.unified m.document) = .ok (m.asWritten.unified.asRead path) := by
  rw [ofDocument, document, Form.read_unified_document (legible_toForm hlegible) (inherits_unbroken.module hunbroken),
    asWritten_toForm, h.asWritten.unified_toForm]
  exact ofForm_toForm h.asWritten.unified path

theorem toForm_asRead (m : Module) (path : Option Path) : (m.asRead path).toForm = m.toForm := rfl

/-- **The same module comes back** exactly if its form has no carriage return. -/
theorem asRead_unified_eq_iff (h : m.Spelled) (path : Option Path) :
    m.asWritten.unified.asRead path = m.asWritten.asRead path ↔ ¬ m.toForm.Holds '\r' := by
  have hform := h.asWritten.unified_toForm
  rw [← Form.holds_asWritten_iff, asWritten_toForm, ← Form.unified_eq_self_iff, hform]
  constructor
  · intro heq
    rw [← toForm_asRead, heq, toForm_asRead]
  · intro heq
    have hread := ofForm_toForm h.asWritten.unified path
    rw [heq, ofForm_toForm h.asWritten path] at hread
    exact (Except.ok.inj hread).symm

end Module

/-! ## Symbols -/

namespace Symbols

variable {symbols : Symbols}

/-- The entry with unified line ends. -/
def unifiedEntry (entry : String × SourceLocation) : String × SourceLocation :=
  (Text.unified entry.1, { entry.2 with file := Text.unified entry.2.file })

theorem unified_toForm (symbols : Symbols) :
    symbols.toForm.unified = .list (.symbol "symbols" :: (symbols.sorted.map unifiedEntry).map entryForm) := by
  rw [toForm, Form.unified, unifiedAll, Form.unified, unifiedAll_eq_map, List.map_map, List.map_map]
  rfl

theorem unbroken_toForm (symbols : Symbols) : symbols.toForm.Unbroken := by
  rw [toForm, Form.Unbroken, Form.unbrokenAll_iff, List.forall_mem_cons]
  refine ⟨show '\r' ∉ _ by decide, List.forall_mem_map.mpr fun entry _ => ?_⟩
  exact ⟨show '\r' ∉ _ by decide, trivial, trivial, trivial, trivial, trivial⟩

/-- **What the file of a symbol document says** is the table of the entries with unified line ends. -/
theorem ofDocument_unified (h : symbols.Countable) :
    ofDocument (Text.unified symbols.document) = .ok (ofEntries (symbols.sorted.map unifiedEntry)) := by
  have hread : Form.read (Text.unified symbols.document) = .ok symbols.toForm.unified := by
    rw [document, Form.read_unified_document (legible_toForm h) symbols.unbroken_toForm,
      (Form.asWritten_eq_self_iff _).mpr (plain_toForm symbols)]
  have hentries : ((symbols.sorted.map unifiedEntry).map entryForm).mapM readEntry
      = .ok ((symbols.sorted.map unifiedEntry).map id) := mapM_map_eq_ok fun entry _ => readEntry_entryForm entry
  rw [List.map_id] at hentries
  rw [ofDocument, hread, unified_toForm]
  show (((symbols.sorted.map unifiedEntry).map entryForm).mapM readEntry >>= fun entries =>
    Except.ok (ofEntries entries)) = _
  rw [hentries]
  rfl

theorem unifiedEntry_unifiedEntry (entry : String × SourceLocation) :
    unifiedEntry (unifiedEntry entry) = unifiedEntry entry := by
  rw [unifiedEntry, unifiedEntry, Text.unified_unified, Text.unified_unified]

theorem entryForm_injective : Function.Injective entryForm := fun entry other h => by
  have hread := readEntry_entryForm entry
  rw [h, readEntry_entryForm other] at hread
  exact (Except.ok.inj hread).symm

/-- **The same table comes back** exactly if its form has no carriage return. -/
theorem ofEntries_unified_eq_iff (hdistinct : symbols.Distinct) :
    ofEntries (symbols.sorted.map unifiedEntry) = symbols.sorted ↔ ¬ symbols.toForm.Holds '\r' := by
  have hforms : symbols.toForm.unified = symbols.toForm ↔ symbols.sorted.map unifiedEntry = symbols.sorted := by
    rw [unified_toForm, toForm, Form.list.injEq, List.cons.injEq, and_iff_right rfl,
      (List.map_injective_iff.mpr entryForm_injective).eq_iff]
  rw [← Form.unified_eq_self_iff, hforms]
  constructor
  · -- the table is made of unified entries
    intro heq
    refine (List.map_congr_left fun entry hentry => ?_).trans (List.map_id _)
    obtain ⟨original, -, rfl⟩ := List.mem_map.mp (mem_of_mem_ofEntries entry (heq ▸ hentry))
    exact unifiedEntry_unifiedEntry original
  · intro heq
    rw [heq]
    exact ofEntries_of_distinct (hdistinct.perm symbols.sorted_perm)

end Symbols

end JobClosure
