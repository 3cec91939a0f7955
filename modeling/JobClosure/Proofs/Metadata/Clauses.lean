import JobClosure.Metadata.Document
import JobClosure.Proofs.Except

/-!
# Reading clause by clause

What it takes for a definition to be read, said without the reader's steps: for a clause of a type one case for
each head (`TypePart.Says`), for a method and for a type its name, its clauses and the definition that is put
together from them. Facts about what is read are shown from these equivalences.
-/

namespace JobClosure

/-- The clauses of the form of a type or of a method: what follows its name. -/
def Form.clauses (form : Form) : List Form := form.operands.drop 1

namespace Method

/-- **Reading a method.** Its name is a text, and every clause is read as a part of it. -/
theorem read_eq_ok_iff {declaringType module : String} {form : Form} {method : Method} :
    read declaringType module form = .ok method ↔
      form.textOperand 0 .methodName = .ok method.id.name ∧
      ∃ parts, form.clauses.mapM MethodPart.read = .ok parts ∧
        ofParts declaringType module method.id.name parts = method := by
  constructor
  · intro h
    obtain ⟨name, hname, h⟩ := bind_eq_ok h
    obtain ⟨parts, hparts, h⟩ := bind_eq_ok h
    obtain rfl := Except.ok.inj h
    exact ⟨hname, parts, hparts, rfl⟩
  · rintro ⟨hname, parts, hparts, hmethod⟩
    rw [read, hname]
    show form.clauses.mapM MethodPart.read >>= _ = _
    rw [hparts]
    exact congrArg Except.ok hmethod

end Method

namespace TypePart

/-- A clause of a type says what the part says. -/
inductive Says (module : String) (scope : Scope) (clause : Form) : TypePart → Prop
  | generic {names : List String} (head : clause.head? = some "generic")
      (operands : clause.textOperands .genericParameter = .ok names) : Says module scope clause (.generic names)
  | base {text : String} {ref : TypeRef} (head : clause.head? = some "base")
      (operand : clause.textOperand 0 .baseType = .ok text) (bound : readRef scope text = .ok ref) :
      Says module scope clause (.base ref)
  | interfaces {texts : List String} {refs : List TypeRef} (head : clause.head? = some "interfaces")
      (operands : clause.textOperands .interface = .ok texts) (bound : texts.mapM (readRef scope) = .ok refs) :
      Says module scope clause (.interfaces refs)
  | attributes {names : List String} (head : clause.head? = some "attributes")
      (operands : clause.textOperands .attribute = .ok names) : Says module scope clause (.attributes names)
  | interface (head : clause.head? = some "interface") : Says module scope clause .interface
  | field {name text : String} {ref : TypeRef} (head : clause.head? = some "field")
      (named : clause.textOperand 0 .fieldName = .ok name) (operand : clause.textOperand 1 .fieldType = .ok text)
      (bound : readRef scope text = .ok ref) : Says module scope clause (.field ⟨name, ref⟩)
  | method {declared : Method} (head : clause.head? = some "method")
      (declares : Method.read scope.typeName module clause = .ok declared) :
      Says module scope clause (.method declared)

variable {module : String} {scope : Scope} {clause : Form} {part : TypePart}

theorem says_of_read (h : read module scope clause = .ok part) : part.Says module scope clause := by
  unfold read at h
  split at h
  · rename_i hhead
    obtain ⟨names, hnames, rfl⟩ := map_eq_ok (mapError_eq_ok h)
    exact .generic hhead hnames
  · rename_i hhead
    obtain ⟨text, htext, h⟩ := bind_eq_ok h
    obtain ⟨ref, href, h⟩ := bind_eq_ok h
    obtain rfl := Except.ok.inj h
    exact .base hhead (mapError_eq_ok htext) href
  · rename_i hhead
    obtain ⟨texts, htexts, h⟩ := bind_eq_ok h
    obtain ⟨refs, hrefs, h⟩ := bind_eq_ok h
    obtain rfl := Except.ok.inj h
    exact .interfaces hhead (mapError_eq_ok htexts) hrefs
  · rename_i hhead
    obtain ⟨names, hnames, rfl⟩ := map_eq_ok (mapError_eq_ok h)
    exact .attributes hhead hnames
  · rename_i hhead
    obtain rfl := Except.ok.inj h
    exact .interface hhead
  · rename_i hhead
    obtain ⟨name, hname, h⟩ := bind_eq_ok h
    obtain ⟨text, htext, h⟩ := bind_eq_ok h
    obtain ⟨ref, href, h⟩ := bind_eq_ok h
    obtain rfl := Except.ok.inj h
    exact .field hhead (mapError_eq_ok hname) (mapError_eq_ok htext) href
  · rename_i hhead
    obtain ⟨declared, hdeclared, rfl⟩ := map_eq_ok (mapError_eq_ok h)
    exact .method hhead hdeclared
  · exact nomatch h

theorem read_of_says (h : part.Says module scope clause) : read module scope clause = .ok part := by
  cases h with
  | generic hhead hnames | attributes hhead hnames =>
    simp only [read, hhead, hnames]
    rfl
  | base hhead htext href =>
    simp only [read, hhead, read.lift, htext]
    show (readRef scope _ >>= fun ref => Except.ok (TypePart.base ref)) = _
    rw [href]
    rfl
  | interfaces hhead htexts hrefs =>
    simp only [read, hhead, read.lift, htexts]
    show (List.mapM (readRef scope) _ >>= fun refs => Except.ok (TypePart.interfaces refs)) = _
    rw [hrefs]
    rfl
  | interface hhead => simp only [read, hhead]
  | field hhead hname htext href =>
    simp only [read, hhead, read.lift, hname, htext]
    show (readRef scope _ >>= fun ref => Except.ok (TypePart.field ⟨_, ref⟩)) = _
    rw [href]
    rfl
  | method hhead hdeclared =>
    simp only [read, hhead, hdeclared]
    rfl

/-- **Reading a clause of a type.** -/
theorem read_eq_ok_iff : read module scope clause = .ok part ↔ part.Says module scope clause :=
  ⟨says_of_read, read_of_says⟩

end TypePart

namespace TypeDef

/-- The scope of the references of a type. -/
def scope (type : TypeDef) : Scope := { typeName := type.fullName, typeParams := type.genericParams }

/-- **Reading a type.** Its name is a text, its generic parameters are those that its clauses declare, and every
clause is read in the scope of these, also one that stands before the declaration. -/
theorem read_eq_ok_iff {module : String} {form : Form} {type : TypeDef} :
    read module form = .ok type ↔
      form.textOperand 0 .typeName = .ok type.fullName ∧
      readGenericParams form.clauses = .ok type.genericParams ∧
      ∃ parts, form.clauses.mapM (TypePart.read module type.scope) = .ok parts ∧
        ofParts module type.fullName type.genericParams parts = type := by
  constructor
  · intro h
    obtain ⟨fullName, hname, h⟩ := bind_eq_ok h
    obtain ⟨genericParams, hgeneric, h⟩ := bind_eq_ok h
    obtain ⟨parts, hparts, h⟩ := bind_eq_ok h
    obtain rfl := Except.ok.inj h
    exact ⟨mapError_eq_ok hname, mapError_eq_ok hgeneric, parts, hparts, rfl⟩
  · rintro ⟨hname, hgeneric, parts, hparts, htype⟩
    rw [read, hname]
    show ((readGenericParams form.clauses).mapError Error.clause >>= _) = _
    rw [hgeneric]
    show (form.clauses.mapM (TypePart.read module type.scope) >>= _) = _
    rw [hparts]
    exact congrArg Except.ok htype

end TypeDef

end JobClosure
