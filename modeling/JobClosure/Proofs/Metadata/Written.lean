import JobClosure.Metadata.Written
import JobClosure.Proofs.Metadata.Clauses
import JobClosure.Proofs.Spelling.Spelled

/-!
# The form of a module is read as the module

Reading the form that is written for a module gives the module again, if its descriptors carry the right
names and its references are spellable in the scope of their type (`Module.ofForm_toForm`). Each
definition is written as a head and a row of clauses; each clause is read as one part, a clause that would
say nothing gives no part, and the definition that is put together from the parts is the one that was
written. The bodies of methods are forms and are taken over as they are.
-/

namespace JobClosure

/-! ## Clauses of texts -/

@[simp] theorem operands_textClause (head : String) (operands : List String) :
    (textClause head operands).operands = operands.map .text := rfl

@[simp] theorem head?_textClause (head : String) (operands : List String) :
    (textClause head operands).head? = some head := rfl

@[simp] theorem textOperands_textClause (head : String) (operands : List String) (operand : Operand) :
    (textClause head operands).textOperands operand = .ok operands := by
  have hmap : (operands.map Form.text).mapM (·.asText operand) = .ok (operands.map id) :=
    mapM_map_eq_ok fun _ _ => rfl
  rw [List.map_id] at hmap
  exact hmap

/-- The operands of a clause, for each time the clause is written: not at all if there are none. -/
def ifAny {α : Type} (operands : List α) : List (List α) := if operands.isEmpty then [] else [operands]

theorem getLast?_ifAny {α : Type} (operands : List α) : (ifAny operands).getLast?.getD [] = operands := by
  cases operands <;> rfl

theorem flatten_ifAny {α : Type} (operands : List α) : (ifAny operands).flatten = operands := by
  cases operands <;> simp [ifAny]

/-- A clause of texts is read as one part, or left out with it. -/
theorem mapM_textClauseIfAny {α β ε : Type} {f : Form → Except ε β} {part : List α → β} {head : String}
    {texts : List String} {operands : List α} (hempty : texts.isEmpty = operands.isEmpty)
    (h : f (textClause head texts) = .ok (part operands)) :
    (textClauseIfAny head texts).mapM f = .ok ((ifAny operands).map part) := by
  unfold textClauseIfAny ifAny
  rw [hempty]
  split
  · rfl
  · rw [List.mapM_cons, h]
    rfl

theorem mapM_toList {α β ε : Type} {f : Form → Except ε β} {form : α → Form} {part : α → β}
    {found : Option α} (h : ∀ a ∈ found, f (form a) = .ok (part a)) :
    (found.map form).toList.mapM f = .ok (found.toList.map part) := by
  cases found with
  | none => rfl
  | some a =>
    show [form a].mapM f = .ok [part a]
    rw [List.mapM_cons, h a rfl]
    rfl

/-! ## Methods -/

namespace Method

/-- What the clauses of a written method say. -/
def parts (method : Method) : List MethodPart :=
  (ifAny method.genericParams).map .generic ++ (ifAny method.id.parameters).map .params
    ++ method.body.toList.map .body

theorem ofParts_parts (method : Method) :
    ofParts method.id.declaringType method.module method.id.name method.parts = method := by
  have hgeneric : method.parts.filterMap MethodPart.generic? = ifAny method.genericParams := by
    simp [parts, Function.comp_def, MethodPart.generic?]
  have hparams : method.parts.filterMap MethodPart.params? = ifAny method.id.parameters := by
    simp [parts, Function.comp_def, MethodPart.params?]
  have hbody : method.parts.filterMap MethodPart.body? = method.body.toList := by
    simp [parts, Function.comp_def, MethodPart.body?]
  have hlast : method.body.toList.getLast? = method.body := by
    cases method.body <;> rfl
  rw [ofParts, lastOf, lastOf, lastOf, hgeneric, hparams, hbody, getLast?_ifAny, getLast?_ifAny, hlast]

theorem mapM_read_clauses (method : Method) :
    method.toForm.clauses.mapM MethodPart.read = .ok method.parts := by
  refine mapM_append_eq_ok (mapM_append_eq_ok ?_ ?_) ?_
  · exact mapM_textClauseIfAny rfl (by simp [MethodPart.read])
  · exact mapM_textClauseIfAny rfl (by simp [MethodPart.read])
  · exact mapM_toList fun _ _ => rfl

/-- **A written method is read back.** -/
theorem read_toForm (method : Method) :
    read method.id.declaringType method.module method.toForm = .ok method :=
  read_eq_ok_iff.mpr ⟨rfl, method.parts, method.mapM_read_clauses, method.ofParts_parts⟩

end Method

/-! ## Types -/

namespace TypeDef

/-- The references that a type is written with. -/
def refs (type : TypeDef) : List TypeRef := type.base.toList ++ type.interfaces ++ type.fields.map (·.type)

/-- A type of the module `module` whose references can be spelled where they stand. -/
structure Spelled (module : String) (type : TypeDef) : Prop where
  ofModule : type.module = module
  refs : ∀ ref ∈ type.refs, ref.toArg.Spellable ∧ ref.toArg.Within type.scope
  methods : ∀ method ∈ type.methods, method.id.declaringType = type.fullName ∧ method.module = module

/-- What the clauses of a written type say. -/
def parts (type : TypeDef) : List TypePart :=
  (ifAny type.genericParams).map .generic
    ++ (if type.isInterface then [.interface] else [])
    ++ type.base.toList.map .base
    ++ (ifAny type.interfaces).map .interfaces
    ++ (ifAny type.attributes).map .attributes
    ++ type.fields.map .field
    ++ type.methods.map .method

theorem ofParts_parts (type : TypeDef) :
    ofParts type.module type.fullName type.genericParams type.parts = type := by
  have hbase : type.parts.filterMap TypePart.base? = type.base.toList := by
    simp [parts, Function.comp_def, TypePart.base?]
  have hinterfaces : type.parts.filterMap TypePart.interfaces? = ifAny type.interfaces := by
    simp [parts, Function.comp_def, TypePart.interfaces?]
  have hattributes : type.parts.filterMap TypePart.attributes? = ifAny type.attributes := by
    simp [parts, Function.comp_def, TypePart.attributes?]
  have hmethods : type.parts.filterMap TypePart.method? = type.methods := by
    simp [parts, Function.comp_def, TypePart.method?]
  have hfields : type.parts.filterMap TypePart.field? = type.fields := by
    simp [parts, Function.comp_def, TypePart.field?]
  have hmark : type.parts.any TypePart.isInterface = type.isInterface := by
    cases h : type.isInterface <;> simp [parts, h, Function.comp_def, TypePart.isInterface]
  have hlast : type.base.toList.getLast? = type.base := by
    cases type.base <;> rfl
  rw [ofParts, lastOf, lastOf, hbase, hinterfaces, hattributes, hmethods, hfields, hmark, hlast, flatten_ifAny,
    getLast?_ifAny]

/-- The clauses of a written type. -/
def clauses (type : TypeDef) : List Form := type.toForm.operands.drop 1

/-- Of the clauses of a type only one declares generic parameters, if any does. -/
theorem filter_clauses (type : TypeDef) :
    type.clauses.filter (fun clause => clause.head? == some "generic")
      = textClauseIfAny "generic" type.genericParams := by
  -- the clauses of every other kind have another head, so that nothing is left of them
  have other : ∀ {head : String} (operands : List String), head ≠ "generic" →
      (textClauseIfAny head operands).filter (fun clause => clause.head? == some "generic") = [] := by
    intro head operands hne
    unfold textClauseIfAny
    split
    · rfl
    · simp [hne]
  have own : (textClauseIfAny "generic" type.genericParams).filter (fun clause => clause.head? == some "generic")
      = textClauseIfAny "generic" type.genericParams := by
    unfold textClauseIfAny
    split <;> simp
  have hmark : (if type.isInterface then [textClause "interface" []] else []).filter
      (fun clause => clause.head? == some "generic") = [] := by
    split <;> simp
  have hbase : (type.base.map fun ref => textClause "base" [ref.spell]).toList.filter
      (fun clause => clause.head? == some "generic") = [] := by
    cases type.base <;> simp
  have hfields : (type.fields.map Field.toForm).filter (fun clause => clause.head? == some "generic") = [] := by
    rw [List.filter_eq_nil_iff]
    intro clause hclause
    obtain ⟨declared, -, rfl⟩ := List.mem_map.mp hclause
    simp [Field.toForm]
  have hmethods : (type.methods.map Method.toForm).filter (fun clause => clause.head? == some "generic") = [] := by
    rw [List.filter_eq_nil_iff]
    intro clause hclause
    obtain ⟨declared, -, rfl⟩ := List.mem_map.mp hclause
    simp [Method.toForm, Form.head?, Form.symbolName?]
  show List.filter _ (_ ++ _ ++ _ ++ _ ++ _ ++ _ ++ _) = _
  simp only [List.filter_append, own, hmark, hbase, hfields, hmethods, other _ (show "interfaces" ≠ "generic" by decide),
    other _ (show "attributes" ≠ "generic" by decide), List.append_nil]

theorem readGenericParams_clauses (type : TypeDef) :
    readGenericParams type.clauses = .ok type.genericParams := by
  have hread : (textClauseIfAny "generic" type.genericParams).mapM (·.textOperands .genericParameter)
      = .ok ((ifAny type.genericParams).map id) :=
    mapM_textClauseIfAny rfl (textOperands_textClause "generic" type.genericParams .genericParameter)
  rw [readGenericParams, filter_clauses, hread, List.map_id]
  exact congrArg Except.ok (getLast?_ifAny type.genericParams)

/-! ### Clause by clause -/

variable {module : String} {type : TypeDef}

theorem readRef_spell {ref : TypeRef} (h : ref.toArg.Spellable ∧ ref.toArg.Within type.scope) :
    TypePart.readRef type.scope ref.spell = .ok ref := by
  rw [TypePart.readRef, Scope.parseNamed_spell h.1 h.2]
  rfl

theorem Spelled.base (h : type.Spelled module) {ref : TypeRef} (href : ref ∈ type.base) :
    TypePart.read module type.scope (textClause "base" [ref.spell]) = .ok (.base ref) := by
  have hmem : ref ∈ type.refs :=
    List.mem_append_left _ (List.mem_append_left _ (Option.mem_toList.mpr href))
  exact TypePart.read_eq_ok_iff.mpr (.base rfl rfl (readRef_spell (h.refs ref hmem)))

theorem Spelled.interfaces (h : type.Spelled module) :
    TypePart.read module type.scope (textClause "interfaces" (type.interfaces.map TypeRef.spell))
      = .ok (.interfaces type.interfaces) := by
  have hread : (type.interfaces.map TypeRef.spell).mapM (TypePart.readRef type.scope)
      = .ok (type.interfaces.map id) := by
    refine mapM_map_eq_ok fun ref href => readRef_spell (h.refs ref ?_)
    exact List.mem_append_left _ (List.mem_append_right _ href)
  rw [List.map_id] at hread
  exact TypePart.read_eq_ok_iff.mpr (.interfaces rfl (textOperands_textClause _ _ _) hread)

theorem Spelled.field (h : type.Spelled module) {declared : Field} (hfield : declared ∈ type.fields) :
    TypePart.read module type.scope declared.toForm = .ok (.field declared) := by
  have hmem : declared.type ∈ type.refs := List.mem_append_right _ (List.mem_map_of_mem hfield)
  exact TypePart.read_eq_ok_iff.mpr (.field rfl rfl rfl (readRef_spell (h.refs declared.type hmem)))

theorem Spelled.method (h : type.Spelled module) {declared : Method} (hmethod : declared ∈ type.methods) :
    TypePart.read module type.scope declared.toForm = .ok (.method declared) := by
  obtain ⟨htype, hmodule⟩ := h.methods declared hmethod
  have hread := declared.read_toForm
  rw [htype, hmodule] at hread
  exact TypePart.read_eq_ok_iff.mpr (.method rfl hread)

theorem mapM_read_clauses (h : type.Spelled module) :
    type.clauses.mapM (TypePart.read module type.scope) = .ok type.parts := by
  refine mapM_append_eq_ok (mapM_append_eq_ok (mapM_append_eq_ok (mapM_append_eq_ok (mapM_append_eq_ok
    (mapM_append_eq_ok ?_ ?_) ?_) ?_) ?_) ?_) ?_
  · refine mapM_textClauseIfAny rfl (TypePart.read_eq_ok_iff.mpr (.generic rfl ?_))
    exact textOperands_textClause "generic" type.genericParams .genericParameter
  · split <;> rfl
  · exact mapM_toList fun ref href => h.base href
  · exact mapM_textClauseIfAny (by simp) h.interfaces
  · refine mapM_textClauseIfAny rfl (TypePart.read_eq_ok_iff.mpr (.attributes rfl ?_))
    exact textOperands_textClause "attributes" type.attributes .attribute
  · exact mapM_map_eq_ok fun declared hfield => h.field hfield
  · exact mapM_map_eq_ok fun declared hmethod => h.method hmethod

/-- **A written type is read back.** -/
theorem read_toForm (h : type.Spelled module) : read module type.toForm = .ok type := by
  refine read_eq_ok_iff.mpr ⟨rfl, type.readGenericParams_clauses, type.parts, mapM_read_clauses h, ?_⟩
  rw [← h.ofModule]
  exact type.ofParts_parts

end TypeDef

/-! ## Modules -/

namespace Module

/-- The references of every type can be spelled where they stand, and every descriptor carries the name of
the module and of the type that it belongs to. -/
def Spelled (m : Module) : Prop := ∀ type ∈ m.types, type.Spelled m.name

/-- The types of a module are read as other ones, one by one. -/
def ReadsTypes (m : Module) (types : List TypeDef) : Prop :=
  List.Forall₂ (fun type read => TypeDef.read m.name type.toForm = .ok read) m.types types

theorem Spelled.readsTypes {m : Module} (h : m.Spelled) : m.ReadsTypes m.types :=
  List.forall₂_same.mpr fun type htype => TypeDef.read_toForm (h type htype)

/-- What the clauses of a written module say if its types are read as others. -/
def partsOf (m : Module) (types : List TypeDef) : List ModulePart :=
  (ifAny m.references).map .references ++ types.map .type

theorem mapM_read_reference (m : Module) (path : Option Path) :
    (textClauseIfAny "reference" m.references).mapM (ModulePart.read m.name path)
      = .ok ((ifAny m.references).map .references) := by
  refine mapM_textClauseIfAny rfl ?_
  simp [ModulePart.read]
  rfl

theorem mapM_read_types {module : String} {declared types : List TypeDef} (path : Option Path)
    (h : List.Forall₂ (fun type read => TypeDef.read module type.toForm = .ok read) declared types) :
    (declared.map TypeDef.toForm).mapM (ModulePart.read module path) = .ok (types.map .type) := by
  induction h with
  | nil => rfl
  | @cons type read _ _ hread _ ih =>
    have hfirst : ModulePart.read module path type.toForm = .ok (.type read) := by
      show (ModulePart.type <$> TypeDef.read module type.toForm) = _
      rw [hread]
      rfl
    rw [List.map_cons, List.mapM_cons, hfirst, ih]
    rfl

/-- A written module is read clause by clause. -/
theorem ofForm_toForm_eq (m : Module) (path : Option Path) : ofForm path m.toForm =
    (textClauseIfAny "reference" m.references ++ m.types.map TypeDef.toForm).mapM (ModulePart.read m.name path)
      >>= fun parts => .ok
        { name := m.name, path
          types := parts.filterMap ModulePart.type?
          references := (parts.filterMap ModulePart.references?).flatten } := rfl

/-- **The form of a module is read type by type.** -/
theorem ofForm_of_readsTypes {m : Module} {types : List TypeDef} (h : m.ReadsTypes types) (path : Option Path) :
    ofForm path m.toForm = .ok { name := m.name, path, types, references := m.references } := by
  have htypes : (m.partsOf types).filterMap ModulePart.type? = types := by
    simp [partsOf, Function.comp_def, ModulePart.type?]
  have hreferences : (m.partsOf types).filterMap ModulePart.references? = ifAny m.references := by
    simp [partsOf, Function.comp_def, ModulePart.references?]
  rw [ofForm_toForm_eq, mapM_append_eq_ok (m.mapM_read_reference path) (mapM_read_types path h), ← partsOf]
  show Except.ok _ = _
  rw [htypes, hreferences, flatten_ifAny]

/-- **The first type that cannot be read** keeps the module from being read. -/
theorem ofForm_of_error {m : Module} {before later : List TypeDef} {type : TypeDef} {error : Error}
    (htypes : m.types = before ++ type :: later) (hbefore : ∀ other ∈ before, other.Spelled m.name)
    (h : TypeDef.read m.name type.toForm = .error error) (path : Option Path) :
    ofForm path m.toForm = .error error := by
  have hread : (before.map TypeDef.toForm).mapM (ModulePart.read m.name path) = .ok (before.map .type) :=
    mapM_read_types path (List.forall₂_same.mpr fun other hother => TypeDef.read_toForm (hbefore other hother))
  have hfirst : ModulePart.read m.name path type.toForm = .error error := by
    show (ModulePart.type <$> TypeDef.read m.name type.toForm) = _
    rw [h]
    rfl
  rw [ofForm_toForm_eq, htypes, List.map_append, List.map_cons, ← List.append_assoc, List.mapM_append,
    mapM_append_eq_ok (m.mapM_read_reference path) hread, List.mapM_cons, hfirst]
  rfl

/-- What is read from a document of the module. -/
def asRead (m : Module) (path : Option Path) : Module :=
  { name := m.name, path, types := m.types, references := m.references }

/-- **The form of a module is read as the module.** -/
theorem ofForm_toForm {m : Module} (h : m.Spelled) (path : Option Path) :
    ofForm path m.toForm = .ok (m.asRead path) :=
  ofForm_of_readsTypes h.readsTypes path

end Module

end JobClosure
