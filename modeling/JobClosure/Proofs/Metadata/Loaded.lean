import JobClosure.Metadata.File
import JobClosure.Proofs.Form.Reading
import JobClosure.Proofs.Metadata.Clauses

/-!
# Loaded modules

A loaded module was read from a document or from a file. What it declares is as it was written: in
particular every method carries the name of the type whose clause it stands in (`Loaded.holdsOwnMethods`).
A module made by other means need not have this property, and nothing checks it.
-/

namespace JobClosure

/-- A module is one that was read. -/
inductive Module.Loaded (m : Module) : Prop where
  | document {path : Option Path} {text : String} : Module.ofDocument path text = .ok m → m.Loaded
  | file {tree : FileTree} {path : Path} : tree.readModule path = .ok m → m.Loaded

/-- Every method of a type is identified with this type as the declaring one. -/
def TypeDef.HoldsOwnMethods (type : TypeDef) : Prop :=
  ∀ method ∈ type.methods, method.id.declaringType = type.fullName

theorem Method.declaringType_of_read {declaringType module : String} {form : Form} {method : Method}
    (h : Method.read declaringType module form = .ok method) :
    method.id.declaringType = declaringType := by
  obtain ⟨-, parts, -, hmethod⟩ := Method.read_eq_ok_iff.mp h
  rw [← hmethod]
  rfl

theorem TypeDef.holdsOwnMethods_of_read {module : String} {form : Form} {type : TypeDef}
    (h : TypeDef.read module form = .ok type) : type.HoldsOwnMethods := by
  obtain ⟨-, -, parts, hparts, htype⟩ := TypeDef.read_eq_ok_iff.mp h
  have hmethods : type.methods = parts.filterMap TypePart.method? := by rw [← htype]; rfl
  intro method hmethod
  rw [hmethods] at hmethod
  obtain ⟨part, hpart, hchosen⟩ := List.mem_filterMap.mp hmethod
  obtain ⟨clause, -, hread⟩ := exists_mem_of_mem_mapM hparts part hpart
  cases TypePart.read_eq_ok_iff.mp hread with
  | method _ hdeclared =>
    obtain rfl := Option.some.inj hchosen
    exact Method.declaringType_of_read hdeclared
  | _ => exact nomatch hchosen

namespace Module

/-- **A module that is read from the characters of a document is loaded.** -/
theorem Loaded.of_characters (text : String) {cs : List Char} {m : Module} (hcs : text.toList = cs)
    (h : (Form.ofCharacters cs).mapError .reading >>= ofForm none = .ok m) : m.Loaded := by
  refine .document (?_ : ofDocument none text = .ok m)
  rw [ofDocument, Form.read_of_toList hcs]
  exact h

theorem exists_read_of_ofForm {path : Option Path} {form : Form} {m : Module} (h : ofForm path form = .ok m) :
    ∀ type ∈ m.types, ∃ clause ∈ form.operands, TypeDef.read m.name clause = .ok type := by
  unfold ofForm at h
  split at h
  · rename_i nameForm clauses _ hoperands
    obtain ⟨name, -, h⟩ := bind_eq_ok h
    obtain ⟨parts, hparts, h⟩ := bind_eq_ok h
    obtain rfl := Except.ok.inj h
    intro type htype
    obtain ⟨part, hpart, hchosen⟩ := List.mem_filterMap.mp htype
    obtain ⟨clause, hclause, hread⟩ := exists_mem_of_mem_mapM hparts part hpart
    unfold ModulePart.read at hread
    split at hread
    · obtain ⟨_, -, rfl⟩ := map_eq_ok (mapError_eq_ok hread)
      exact nomatch hchosen
    · obtain ⟨declared, hdeclared, rfl⟩ := map_eq_ok hread
      obtain rfl := Option.some.inj hchosen
      exact ⟨clause, hoperands ▸ List.mem_cons_of_mem _ hclause, hdeclared⟩
    · exact nomatch hread
  · exact nomatch h

/-- A module in a file has the types of its document. -/
theorem exists_ofDocument_of_readModule {tree : FileTree} {path : Path} {m : Module}
    (h : tree.readModule path = .ok m) :
    ∃ text read, ofDocument (some path) text = .ok read ∧ m.types = read.types ∧ m.name = read.name := by
  obtain ⟨text, -, h⟩ := bind_eq_ok h
  obtain ⟨read, hread, h⟩ := bind_eq_ok h
  obtain ⟨symbols, -, h⟩ := bind_eq_ok h
  obtain rfl := Except.ok.inj h
  exact ⟨text, read, mapError_eq_ok hread, rfl, rfl⟩

/-- Every type of a loaded module was read from a clause of a form that was read. -/
theorem Loaded.exists_form {m : Module} (h : m.Loaded) :
    ∃ document form, Form.read document = .ok form ∧
      ∀ type ∈ m.types, ∃ clause ∈ form.operands, TypeDef.read m.name clause = .ok type := by
  rcases h with h | h
  · obtain ⟨form, hform, h⟩ := bind_eq_ok h
    exact ⟨_, form, mapError_eq_ok hform, exists_read_of_ofForm h⟩
  · obtain ⟨text, read, h, htypes, hname⟩ := exists_ofDocument_of_readModule h
    obtain ⟨form, hform, h⟩ := bind_eq_ok h
    rw [htypes, hname]
    exact ⟨_, form, mapError_eq_ok hform, exists_read_of_ofForm h⟩

/-- **Every type of a loaded module was read from a clause.** -/
theorem Loaded.exists_read {m : Module} (h : m.Loaded) :
    ∀ type ∈ m.types, ∃ clause, TypeDef.read m.name clause = .ok type := by
  obtain ⟨-, form, -, hread⟩ := h.exists_form
  intro type htype
  obtain ⟨clause, -, hclause⟩ := hread type htype
  exact ⟨clause, hclause⟩

theorem Loaded.holdsOwnMethods {m : Module} (h : m.Loaded) : ∀ type ∈ m.types, type.HoldsOwnMethods := by
  intro type htype
  obtain ⟨clause, hread⟩ := h.exists_read type htype
  exact TypeDef.holdsOwnMethods_of_read hread

end Module

end JobClosure
