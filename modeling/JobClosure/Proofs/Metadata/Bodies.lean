import JobClosure.Proofs.Form.Range
import JobClosure.Proofs.Metadata.RoundTrip

/-!
# Bodies that were read

A body is kept as the forms that the document has for it, so it has every property that a clause hands down to
its operands (`Module.forall_of_ofForm`). The numbers in the bodies of a loaded module are therefore such as can be
read, and what is written for them is read back: of a body only the symbols have to be looked at
(`Loaded.legible_iff`). They are read back from a document that escapes none of them
(`legibleBodies_of_ofDocument`).
-/

namespace JobClosure

/-- A property that a clause hands down to its operands. -/
def Form.Descends (P : Form → Prop) : Prop := ∀ clause : Form, P clause → ∀ operand ∈ clause.operands, P operand

theorem Form.descends_inRange : Descends InRange := fun _ h => inRange_operands h

theorem Form.descends_legible : Descends Legible := by
  intro clause h
  unfold operands
  split
  · exact fun operand hmem => legibleAll_iff.mp h operand (List.mem_cons_of_mem _ hmem)
  · exact fun operand hmem => absurd hmem List.not_mem_nil

/-! ## From a document to the bodies -/

/-- A body is the operands of a clause. -/
theorem MethodPart.body_of_read {clause : Form} {part : MethodPart} {body : List Form}
    (h : read clause = .ok part) (hbody : part.body? = some body) : body = clause.operands := by
  unfold read at h
  split at h
  · obtain ⟨names, -, rfl⟩ := map_eq_ok h
    exact nomatch hbody
  · obtain ⟨types, -, rfl⟩ := map_eq_ok h
    exact nomatch hbody
  · obtain rfl := Except.ok.inj h
    exact (Option.some.inj hbody).symm
  · exact nomatch h

section

variable {P : Form → Prop} (hP : Form.Descends P) {module : String} {form : Form} (hform : P form)
include hP hform

theorem Form.Descends.clauses : ∀ clause ∈ form.clauses, P clause := fun clause hclause =>
  hP form hform clause (List.mem_of_mem_drop hclause)

theorem Method.forall_of_read {declaringType : String} {method : Method}
    (h : read declaringType module form = .ok method) : ∀ body ∈ method.body, ∀ item ∈ body, P item := by
  obtain ⟨-, parts, hparts, hmethod⟩ := read_eq_ok_iff.mp h
  have hchosen : method.body = lastOf MethodPart.body? parts := by rw [← hmethod]; rfl
  intro body hbody
  rw [hchosen] at hbody
  obtain ⟨part, hpart, hbody⟩ := List.mem_filterMap.mp (List.mem_of_getLast? hbody)
  obtain ⟨clause, hclause, hread⟩ := exists_mem_of_mem_mapM hparts part hpart
  rw [MethodPart.body_of_read hread hbody]
  exact hP clause (hP.clauses hform clause hclause)

theorem TypeDef.forall_of_read {type : TypeDef} (h : read module form = .ok type) :
    ∀ method ∈ type.methods, ∀ body ∈ method.body, ∀ item ∈ body, P item := by
  obtain ⟨-, -, parts, hparts, htype⟩ := read_eq_ok_iff.mp h
  have hmethods : type.methods = parts.filterMap TypePart.method? := by rw [← htype]; rfl
  intro method hmethod
  rw [hmethods] at hmethod
  obtain ⟨part, hpart, hchosen⟩ := List.mem_filterMap.mp hmethod
  obtain ⟨clause, hclause, hread⟩ := exists_mem_of_mem_mapM hparts part hpart
  cases TypePart.read_eq_ok_iff.mp hread with
  | method _ hdeclared =>
    obtain rfl := Option.some.inj hchosen
    exact Method.forall_of_read hP (hP.clauses hform clause hclause) hdeclared
  | _ => exact nomatch hchosen

/-- **The bodies of a module** have what the form of its document hands down. -/
theorem Module.forall_of_ofForm {path : Option Path} {m : Module} (h : ofForm path form = .ok m) :
    ∀ type ∈ m.types, ∀ method ∈ type.methods, ∀ body ∈ method.body, ∀ item ∈ body, P item := by
  intro type htype
  obtain ⟨clause, hclause, hread⟩ := exists_read_of_ofForm h type htype
  exact TypeDef.forall_of_read hP (hP form hform clause hclause) hread

end

namespace Module

variable {m : Module}

/-! ## Numbers and symbols -/

/-- **The numbers in the bodies of a loaded module are in range.** -/
theorem Loaded.inRange (h : m.Loaded) :
    ∀ type ∈ m.types, ∀ method ∈ type.methods, ∀ body ∈ method.body, ∀ form ∈ body, form.InRange := by
  obtain ⟨document, form, hform, hread⟩ := h.exists_form
  intro type htype
  obtain ⟨clause, hclause, hread⟩ := hread type htype
  have hclause := Form.descends_inRange form (Form.inRange_of_read hform) clause hclause
  exact TypeDef.forall_of_read Form.descends_inRange hclause hread

/-- **A body of a loaded module is legible** if its symbols are read as themselves, and only then. -/
theorem Loaded.legible_iff (h : m.Loaded) {type : TypeDef} {method : Method} {body : List Form} {form : Form}
    (htype : type ∈ m.types) (hmethod : method ∈ type.methods) (hbody : body ∈ method.body) (hform : form ∈ body) :
    form.Legible ↔ ∀ name ∈ form.symbols, Form.read name = .ok (.symbol name) :=
  Form.legible_iff_of_inRange (h.inRange type htype method hmethod body hbody form hform)

/-- **The bodies of a document without escaped symbols are legible.** -/
theorem legibleBodies_of_ofDocument {path : Option Path} {document : String} (h : ofDocument path document = .ok m)
    (hescapes : Form.escapesAtom document.toList = false) : m.LegibleBodies := by
  obtain ⟨form, hform, h⟩ := bind_eq_ok h
  exact forall_of_ofForm Form.descends_legible (Form.legible_of_read (mapError_eq_ok hform) hescapes) h

end Module

end JobClosure
