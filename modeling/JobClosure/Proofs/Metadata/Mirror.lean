import JobClosure.Proofs.Metadata.File
import JobClosure.Synthesis

/-!
# A module and what its files say

Whoever writes a module goes on holding it as it was made, while its files say it as it was written: with
other bodies where a form is written as another one, and with sorted symbols. The module **mirrors** what
its files say when it would be written the same way. That is enough for everything that writing depends on
(`Mirrors.storable`), and a module mirrors what was read back after it was written (`mirrors_asStored`).
-/

namespace JobClosure

open Form (asWritten asWrittenAll)

/-! ## What is written is written as itself -/

theorem Method.asWritten_asWritten (method : Method) : method.asWritten.asWritten = method.asWritten := by
  cases hbody : method.body with
  | none => simp [asWritten, hbody]
  | some body => simp [asWritten, hbody, Form.asWrittenAll_asWrittenAll]

theorem TypeDef.asWritten_asWritten (type : TypeDef) : type.asWritten.asWritten = type.asWritten := by
  simp [asWritten, Function.comp_def, Method.asWritten_asWritten]

theorem TypeDef.spelled_asWritten_iff {module : String} {type : TypeDef} :
    type.asWritten.Spelled module ↔ type.Spelled module := by
  constructor
  · intro h
    refine ⟨h.ofModule, h.refs, fun method hmethod => ?_⟩
    exact h.methods method.asWritten (List.mem_map_of_mem hmethod)
  · intro h
    refine ⟨h.ofModule, h.refs, fun method hmethod => ?_⟩
    obtain ⟨original, horiginal, rfl⟩ := List.mem_map.mp hmethod
    exact h.methods original horiginal

/-- The bodies of a type are legible. -/
def TypeDef.LegibleBodies (type : TypeDef) : Prop :=
  ∀ method ∈ type.methods, ∀ body ∈ method.body, ∀ form ∈ body, form.Legible

theorem TypeDef.legibleBodies_asWritten_iff {type : TypeDef} :
    type.asWritten.LegibleBodies ↔ type.LegibleBodies := by
  have hbody : ∀ method : Method, (∀ body ∈ method.asWritten.body, ∀ form ∈ body, form.Legible) ↔
      ∀ body ∈ method.body, ∀ form ∈ body, form.Legible := by
    intro method
    simp only [← Form.legibleAll_iff, Method.asWritten]
    cases method.body with
    | none => simp
    | some body => simp [Form.legibleAll_asWrittenAll_iff]
  unfold LegibleBodies
  simp only [asWritten, List.forall_mem_map, hbody]

/-- Symbols in another order are written with the same characters. -/
theorem Symbols.holds_toForm_of_perm {symbols other : Symbols} (hperm : other.Perm symbols) {c : Char}
    (h : other.toForm.Holds c) : symbols.toForm.Holds c := by
  have hsorted : other.sorted.Perm symbols.sorted :=
    (other.sorted_perm.trans hperm).trans symbols.sorted_perm.symm
  obtain ⟨form, hform, hc⟩ := Form.holdsAny_iff.mp h
  refine Form.holdsAny_iff.mpr ⟨form, ?_, hc⟩
  rcases List.mem_cons.mp hform with rfl | hform
  · exact List.mem_cons_self
  · exact List.mem_cons_of_mem _ ((hsorted.map _).mem_iff.mp hform)

namespace Module

/-- `m` would be written the same way as `stored`. -/
structure Mirrors (m stored : Module) : Prop where
  name : m.name = stored.name
  references : m.references = stored.references
  types : m.asWritten.types = stored.asWritten.types
  symbols : List.Perm m.symbols stored.symbols

/-- **A module mirrors what is read back of it.** -/
theorem mirrors_asStored (m : Module) (path : Path) : m.Mirrors (m.asStored path) := by
  refine ⟨rfl, rfl, ?_, (Symbols.sorted_perm m.symbols).symm⟩
  show m.types.map TypeDef.asWritten = (m.types.map TypeDef.asWritten).map TypeDef.asWritten
  rw [List.map_map]
  exact List.map_congr_left fun type _ => (TypeDef.asWritten_asWritten type).symm

variable {m stored : Module}

theorem Mirrors.asWritten_toForm (h : m.Mirrors stored) : m.toForm.asWritten = stored.toForm.asWritten := by
  rw [Module.asWritten_toForm, Module.asWritten_toForm, toForm, toForm, h.types]
  show Form.list (.symbol "module" :: .text m.name :: (textClauseIfAny "reference" m.references ++ _)) = _
  rw [h.name, h.references]
  rfl

/-- What holds of types up to their bodies as they are written holds on both sides. -/
theorem Mirrors.forall_types (h : m.Mirrors stored) {p : TypeDef → Prop}
    (hp : ∀ type, p type.asWritten ↔ p type) (hall : ∀ type ∈ stored.types, p type) : ∀ type ∈ m.types, p type := by
  intro type htype
  have hmem : type.asWritten ∈ stored.asWritten.types := by
    rw [← h.types]
    exact List.mem_map_of_mem htype
  obtain ⟨other, hother, heq⟩ := List.mem_map.mp hmem
  have hother := (hp other).mpr (hall other hother)
  rw [heq] at hother
  exact (hp type).mp hother

/-- **A module can be stored if what it mirrors can.** -/
theorem Mirrors.storable (h : m.Mirrors stored) (hstored : stored.Storable) : m.Storable where
  spelled := by
    have hspelled := h.forall_types (fun _ => TypeDef.spelled_asWritten_iff) hstored.spelled
    rw [← h.name] at hspelled
    exact hspelled
  bodies := h.forall_types (fun _ => TypeDef.legibleBodies_asWritten_iff) hstored.bodies
  noReturn := by
    rw [← Form.holds_asWritten_iff, h.asWritten_toForm, Form.holds_asWritten_iff]
    exact hstored.noReturn
  distinctSymbols := hstored.distinctSymbols.perm h.symbols
  countableSymbols := fun entry hentry => hstored.countableSymbols entry (h.symbols.mem_iff.mp hentry)
  noReturnInSymbols := fun hholds => hstored.noReturnInSymbols (Symbols.holds_toForm_of_perm h.symbols hholds)

/-! ## Outside a group -/

/-- What a module declares outside a group. -/
def outside (m : Module) (group : String) : Module := m.removeTypes (Synthesis.inGroup group)

theorem types_outside_map_asWritten (types : List TypeDef) (group : String) :
    (types.map TypeDef.asWritten).filter (fun type => !Synthesis.inGroup group type)
      = (types.filter fun type => !Synthesis.inGroup group type).map TypeDef.asWritten := by
  rw [List.filter_map]
  rfl

theorem Mirrors.outside (h : m.Mirrors stored) (group : String) : (m.outside group).Mirrors (stored.outside group) := by
  refine ⟨h.name, h.references, ?_, h.symbols⟩
  have htypes := congrArg (List.filter fun type => !Synthesis.inGroup group type) h.types
  rw [Module.asWritten, Module.asWritten, types_outside_map_asWritten, types_outside_map_asWritten] at htypes
  exact htypes

end Module

end JobClosure
