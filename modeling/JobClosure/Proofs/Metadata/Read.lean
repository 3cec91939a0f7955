import JobClosure.Proofs.Metadata.Loaded
import JobClosure.Proofs.Metadata.Written
import JobClosure.Proofs.Spelling.Parsed

/-!
# What is read can be written

A type that was read names types by the spelling grammar, uses its own parameters only, and carries the
name of its module; its methods carry its name. So only a parameter that is not called a word of the
grammar keeps it from being written so that it is read back (`TypeDef.spelled_of_read`).

Which file a document is read for plays no part in what it says (`Module.ofDocument_path`).
-/

namespace JobClosure

namespace TypePart

/-- A reference that can be written in a scope, as far as names and owners go. -/
def SoundRef (scope : Scope) (ref : TypeRef) : Prop := ref.toArg.Grammatical ∧ ref.toArg.Within scope

/-- What reading a clause makes sure of. -/
def Sound (module : String) (scope : Scope) : TypePart → Prop
  | .base ref => SoundRef scope ref
  | .interfaces refs => ∀ ref ∈ refs, SoundRef scope ref
  | .field declared => SoundRef scope declared.type
  | .method declared => declared.id.declaringType = scope.typeName ∧ declared.module = module
  | _ => True

theorem sound_of_readRef {scope : Scope} {text : String} {ref : TypeRef} (h : readRef scope text = .ok ref) :
    SoundRef scope ref :=
  Scope.parseNamed_sound (mapError_eq_ok h)

/-- **What is read from a clause is sound.** -/
theorem sound_of_read {module : String} {scope : Scope} {clause : Form} {part : TypePart}
    (h : read module scope clause = .ok part) : part.Sound module scope := by
  cases read_eq_ok_iff.mp h with
  | base _ _ hbound | field _ _ _ hbound => exact sound_of_readRef hbound
  | interfaces _ _ hbound =>
    intro ref href
    obtain ⟨text, -, hread⟩ := exists_mem_of_mem_mapM hbound ref href
    exact sound_of_readRef hread
  | method _ hdeclared =>
    obtain ⟨-, parts, -, hmethod⟩ := Method.read_eq_ok_iff.mp hdeclared
    rw [← hmethod]
    exact ⟨rfl, rfl⟩
  | _ => trivial

end TypePart

namespace TypeDef

variable {module : String} {form : Form} {type : TypeDef}

/-- A type is put together from sound parts. -/
theorem exists_parts_of_read (h : read module form = .ok type) :
    ∃ parts : List TypePart, (∀ part ∈ parts, part.Sound module type.scope) ∧
      type = ofParts module type.fullName type.genericParams parts := by
  obtain ⟨-, -, parts, hparts, htype⟩ := read_eq_ok_iff.mp h
  refine ⟨parts, fun part hpart => ?_, htype.symm⟩
  obtain ⟨clause, -, hread⟩ := exists_mem_of_mem_mapM hparts part hpart
  exact TypePart.sound_of_read hread

theorem soundRef_of_read (h : read module form = .ok type) : ∀ ref ∈ type.refs, TypePart.SoundRef type.scope ref := by
  obtain ⟨parts, hsound, htype⟩ := exists_parts_of_read h
  intro ref href
  have hbase : type.base = lastOf TypePart.base? parts := by rw [htype]; rfl
  have hinterfaces : type.interfaces = (parts.filterMap TypePart.interfaces?).flatten := by rw [htype]; rfl
  have hfields : type.fields = parts.filterMap TypePart.field? := by rw [htype]; rfl
  rw [refs, List.mem_append, List.mem_append] at href
  -- the base, the interfaces and the fields come from clauses of three kinds, and every clause is sound
  rcases href with (href | href) | href
  · rw [hbase, Option.mem_toList] at href
    obtain ⟨part, hpart, hchosen⟩ := List.mem_filterMap.mp (List.mem_of_getLast? href)
    have hpart := hsound part hpart
    cases part with
    | base found =>
      obtain rfl : found = ref := Option.some.inj hchosen
      exact hpart
    | _ => exact nomatch hchosen
  · rw [hinterfaces] at href
    obtain ⟨found, hfound, href⟩ := List.mem_flatten.mp href
    obtain ⟨part, hpart, hchosen⟩ := List.mem_filterMap.mp hfound
    have hpart := hsound part hpart
    cases part with
    | interfaces refs =>
      obtain rfl : refs = found := Option.some.inj hchosen
      exact hpart ref href
    | _ => exact nomatch hchosen
  · rw [hfields] at href
    obtain ⟨declared, hdeclared, rfl⟩ := List.mem_map.mp href
    obtain ⟨part, hpart, hchosen⟩ := List.mem_filterMap.mp hdeclared
    have hpart := hsound part hpart
    cases part with
    | field found =>
      obtain rfl : found = declared := Option.some.inj hchosen
      exact hpart
    | _ => exact nomatch hchosen

theorem ownMethods_of_read (h : read module form = .ok type) :
    ∀ method ∈ type.methods, method.id.declaringType = type.fullName ∧ method.module = module := by
  obtain ⟨parts, hsound, htype⟩ := exists_parts_of_read h
  have hmethods : type.methods = parts.filterMap TypePart.method? := by rw [htype]; rfl
  intro method hmethod
  rw [hmethods] at hmethod
  obtain ⟨part, hpart, hchosen⟩ := List.mem_filterMap.mp hmethod
  have hpart := hsound part hpart
  cases part with
  | method declared =>
    obtain rfl : declared = method := Option.some.inj hchosen
    exact hpart
  | _ => exact nomatch hchosen

theorem module_of_read (h : read module form = .ok type) : type.module = module := by
  obtain ⟨parts, -, htype⟩ := exists_parts_of_read h
  rw [htype]
  rfl

/-- The parameters that a type is written with are words of the grammar. -/
def WordParameters (type : TypeDef) : Prop :=
  ∀ ref ∈ type.refs, ∀ p ∈ ref.toArg.occurrences, Spelling.isWord p.name = true

/-- **A type that was read can be spelled** if its parameters are called words. -/
theorem spelled_of_read (h : read module form = .ok type) (hwords : type.WordParameters) :
    type.Spelled module := by
  refine ⟨module_of_read h, fun ref href => ?_, ownMethods_of_read h⟩
  obtain ⟨hnames, hwithin⟩ := soundRef_of_read h ref href
  exact ⟨(TypeArg.spellable_iff ref.toArg).mpr ⟨hnames, hwords ref href⟩, hwithin⟩

end TypeDef

/-! ## The file of a document -/

variable {path other : Option Path}

theorem ModulePart.read_path {module : String} {clause : Form} {part : ModulePart}
    (h : ModulePart.read module path clause = .ok part) : ModulePart.read module other clause = .ok part := by
  unfold ModulePart.read at h ⊢
  split
  · rename_i hhead
    rw [hhead] at h
    exact h
  · rename_i hhead
    rw [hhead] at h
    exact h
  · rename_i hreference htype
    split at h
    · rename_i hhead
      exact absurd hhead hreference
    · rename_i hhead
      exact absurd hhead htype
    · exact nomatch h

namespace Module

theorem ofForm_path {form : Form} {m : Module} (h : ofForm path form = .ok m) :
    ofForm other form = .ok { m with path := other } := by
  unfold ofForm at h ⊢
  split at h
  · rename_i nameForm clauses hhead hoperands
    obtain ⟨name, hname, h⟩ := bind_eq_ok h
    obtain ⟨parts, hparts, h⟩ := bind_eq_ok h
    obtain rfl := Except.ok.inj h
    have hother : clauses.mapM (ModulePart.read name other) = .ok parts :=
      mapM_eq_ok_of_imp (fun _ _ _ => ModulePart.read_path) hparts
    show ((nameForm.asText .moduleName).mapError Error.clause >>= fun name =>
      clauses.mapM (ModulePart.read name other) >>= fun parts => Except.ok _) = _
    rw [hname]
    show (clauses.mapM (ModulePart.read name other) >>= fun parts => Except.ok _) = _
    rw [hother]
    rfl
  · exact nomatch h

/-- **A document says the same for every file.** -/
theorem ofDocument_path {document : String} {m : Module} (h : ofDocument path document = .ok m) :
    ofDocument other document = .ok { m with path := other } := by
  obtain ⟨form, hform, h⟩ := bind_eq_ok h
  rw [ofDocument, hform]
  exact ofForm_path h

end Module

end JobClosure
