import JobClosure.Proofs.Metadata.Written

/-!
# The notation of modules, whatever is written in it

The form of a module is made of lists, of texts and of a few symbols (`heads`), and of the forms of its bodies.
So a property of forms that these have and that lists take over holds of the form of a module if it holds of the
bodies (`Inherits.module`). And forms can be recoded, lists item by item and the texts one by one: then the form of
a module is recoded into the form of another one, in which every text and every body is (`Recoding.module`).
-/

namespace JobClosure

/-- The symbols of the notation for modules. -/
def heads : List String :=
  ["module", "reference", "type", "generic", "interface", "base", "interfaces", "attributes", "field", "method",
    "params", "body"]

/-! ## Properties -/

/-- A property that texts and the symbols of the notation have, and lists of forms that have it. -/
structure Inherits (P : Form → Prop) : Prop where
  text : ∀ content, P (.text content)
  head : ∀ head ∈ heads, P (.symbol head)
  list : ∀ items, (∀ form ∈ items, P form) → P (.list items)

namespace Inherits

variable {P : Form → Prop} (h : Inherits P)
include h

theorem clause {head : String} (hhead : head ∈ heads) (operands : List String) : P (textClause head operands) := by
  refine h.list _ (List.forall_mem_cons.mpr ⟨h.head head hhead, fun form hform => ?_⟩)
  obtain ⟨content, -, rfl⟩ := List.mem_map.mp hform
  exact h.text content

theorem clauseIfAny {head : String} (hhead : head ∈ heads) (operands : List String) :
    ∀ form ∈ textClauseIfAny head operands, P form := by
  unfold textClauseIfAny
  split
  · exact fun form hform => absurd hform List.not_mem_nil
  · exact List.forall_mem_singleton.mpr (h.clause hhead operands)

theorem method {method : Method} (hbody : ∀ body ∈ method.body, ∀ form ∈ body, P form) : P method.toForm := by
  refine h.list _ (List.forall_mem_cons.mpr ⟨h.head "method" (by decide), List.forall_mem_cons.mpr ⟨h.text _, ?_⟩⟩)
  rw [List.forall_mem_append, List.forall_mem_append]
  refine ⟨⟨h.clauseIfAny (by decide) _, h.clauseIfAny (by decide) _⟩, fun form hform => ?_⟩
  obtain ⟨body, hmem, rfl⟩ := Option.map_eq_some_iff.mp (Option.mem_toList.mp hform)
  exact h.list _ (List.forall_mem_cons.mpr ⟨h.head "body" (by decide), hbody body hmem⟩)

theorem type {type : TypeDef} (hbodies : ∀ method ∈ type.methods, ∀ body ∈ method.body, ∀ form ∈ body, P form) :
    P type.toForm := by
  refine h.list _ (List.forall_mem_cons.mpr ⟨h.head "type" (by decide), List.forall_mem_cons.mpr ⟨h.text _, ?_⟩⟩)
  intro form hform
  simp only [List.mem_append, or_assoc] at hform
  rcases hform with hform | hform | hform | hform | hform | hform | hform
  · exact h.clauseIfAny (by decide) _ form hform
  · split at hform
    · rw [List.mem_singleton.mp hform]
      exact h.clause (by decide) _
    · exact absurd hform List.not_mem_nil
  · obtain ⟨ref, -, rfl⟩ := Option.map_eq_some_iff.mp (Option.mem_toList.mp hform)
    exact h.clause (by decide) _
  · exact h.clauseIfAny (by decide) _ form hform
  · exact h.clauseIfAny (by decide) _ form hform
  · obtain ⟨declared, -, rfl⟩ := List.mem_map.mp hform
    exact h.clause (by decide) _
  · obtain ⟨method, hmethod, rfl⟩ := List.mem_map.mp hform
    exact h.method (hbodies method hmethod)

/-- **What the bodies of a module have, its form has.** -/
theorem module {m : Module} (hbodies : ∀ type ∈ m.types, ∀ method ∈ type.methods, ∀ body ∈ method.body,
    ∀ form ∈ body, P form) : P m.toForm := by
  refine h.list _ (List.forall_mem_cons.mpr ⟨h.head "module" (by decide), List.forall_mem_cons.mpr ⟨h.text _, ?_⟩⟩)
  rw [List.forall_mem_append, List.forall_mem_map]
  exact ⟨h.clauseIfAny (by decide) _, fun type htype => h.type (hbodies type htype)⟩

end Inherits

/-! ## Recoded modules -/

/-- A map of forms that takes lists item by item, texts by another map, and the symbols of the notation to
themselves. -/
structure Recoding (recode : Form → Form) (retext : String → String) : Prop where
  text : ∀ content, recode (.text content) = .text (retext content)
  head : ∀ head ∈ heads, recode (.symbol head) = .symbol head
  list : ∀ items, recode (.list items) = .list (items.map recode)

section

variable (recode : Form → Form) (retext : String → String) (rerefer : TypeRef → TypeRef)

/-- The method with every text and every form of its body recoded. -/
def Method.recoded (method : Method) : Method where
  id :=
    { declaringType := retext method.id.declaringType
      name := retext method.id.name
      parameters := method.id.parameters.map retext }
  genericParams := method.genericParams.map retext
  body := method.body.map fun forms => forms.map recode
  module := retext method.module

def Field.recoded (declared : Field) : Field := ⟨retext declared.name, rerefer declared.type⟩

/-- The type with everything recoded, and other references in place of its own. -/
def TypeDef.recoded (type : TypeDef) : TypeDef where
  fullName := retext type.fullName
  genericParams := type.genericParams.map retext
  base := type.base.map rerefer
  interfaces := type.interfaces.map rerefer
  attributes := type.attributes.map retext
  isInterface := type.isInterface
  methods := type.methods.map (Method.recoded recode retext)
  fields := type.fields.map (Field.recoded retext rerefer)
  module := retext type.module

/-- The module with everything recoded that its document says. -/
def Module.recoded (m : Module) : Module :=
  { m with
    name := retext m.name
    types := m.types.map (TypeDef.recoded recode retext rerefer)
    references := m.references.map retext }

end

namespace Recoding

variable {recode : Form → Form} {retext : String → String} {rerefer : TypeRef → TypeRef} (h : Recoding recode retext)
include h

theorem clause {head : String} (hhead : head ∈ heads) (operands : List String) :
    recode (textClause head operands) = textClause head (operands.map retext) := by
  rw [textClause, h.list, List.map_cons, h.head head hhead, textClause, List.map_map, List.map_map]
  exact congrArg (fun texts => Form.list (.symbol head :: texts)) (List.map_congr_left fun content _ => h.text content)

theorem clauseIfAny {head : String} (hhead : head ∈ heads) (operands : List String) :
    (textClauseIfAny head operands).map recode = textClauseIfAny head (operands.map retext) := by
  unfold textClauseIfAny
  rw [List.isEmpty_map]
  split
  · rfl
  · rw [List.map_singleton, h.clause hhead]

theorem method (method : Method) : recode method.toForm = (method.recoded recode retext).toForm := by
  have hbody : (method.body.map fun forms => Form.list (.symbol "body" :: forms)).toList.map recode
      = ((method.recoded recode retext).body.map fun forms => Form.list (.symbol "body" :: forms)).toList := by
    rw [Method.recoded]
    cases method.body with
    | none => rfl
    | some forms =>
      show [recode (.list (.symbol "body" :: forms))] = [.list (.symbol "body" :: forms.map recode)]
      rw [h.list, List.map_cons, h.head "body" (by decide)]
  rw [Method.toForm, h.list, List.map_cons, List.map_cons, h.head "method" (by decide), h.text, List.map_append,
    List.map_append, h.clauseIfAny (by decide), h.clauseIfAny (by decide), hbody]
  rfl

theorem field {declared : Field} (href : retext declared.type.spell = (rerefer declared.type).spell) :
    recode declared.toForm = (declared.recoded retext rerefer).toForm := by
  rw [Field.toForm, h.clause (by decide), List.map_cons, List.map_singleton, href]
  rfl

/-- **A type is recoded clause by clause**, if its references are spelled as the recoded ones. -/
theorem type {type : TypeDef} (hrefs : ∀ ref ∈ type.refs, retext ref.spell = (rerefer ref).spell) :
    recode type.toForm = (type.recoded recode retext rerefer).toForm := by
  simp only [TypeDef.refs, List.forall_mem_append, Option.mem_toList, List.forall_mem_map] at hrefs
  obtain ⟨⟨hbase, hinterfaces⟩, hfields⟩ := hrefs
  -- one equation for each kind of clause; the order of the kinds is the same on both sides
  have hmark : (if type.isInterface then [textClause "interface" []] else []).map recode
      = if type.isInterface then [textClause "interface" []] else [] := by
    split
    · rw [List.map_singleton, h.clause (by decide), List.map_nil]
    · rfl
  have hbase : (type.base.map fun ref => textClause "base" [ref.spell]).toList.map recode
      = ((type.recoded recode retext rerefer).base.map fun ref => textClause "base" [ref.spell]).toList := by
    rw [TypeDef.recoded]
    cases hsome : type.base with
    | none => rfl
    | some ref =>
      show [recode (textClause "base" [ref.spell])] = [textClause "base" [(rerefer ref).spell]]
      rw [h.clause (by decide), List.map_singleton, hbase ref hsome]
  have hinterfaces : (type.interfaces.map TypeRef.spell).map retext
      = (type.recoded recode retext rerefer).interfaces.map TypeRef.spell := by
    rw [TypeDef.recoded, List.map_map, List.map_map]
    exact List.map_congr_left hinterfaces
  have hfields : (type.fields.map Field.toForm).map recode
      = (type.recoded recode retext rerefer).fields.map Field.toForm := by
    rw [TypeDef.recoded, List.map_map, List.map_map]
    exact List.map_congr_left fun declared hfield => h.field (hfields declared hfield)
  have hmethods : (type.methods.map Method.toForm).map recode
      = (type.recoded recode retext rerefer).methods.map Method.toForm := by
    rw [TypeDef.recoded, List.map_map, List.map_map]
    exact List.map_congr_left fun method _ => h.method method
  rw [TypeDef.toForm, h.list, List.map_cons, List.map_cons, h.head "type" (by decide), h.text]
  simp only [List.map_append, hmark, hbase, hfields, hmethods]
  rw [h.clauseIfAny (by decide), h.clauseIfAny (by decide), h.clauseIfAny (by decide), hinterfaces]
  rfl

/-- **The form of a module is recoded into the form of the recoded module.** -/
theorem module {m : Module} (hrefs : ∀ type ∈ m.types, ∀ ref ∈ type.refs, retext ref.spell = (rerefer ref).spell) :
    recode m.toForm = (m.recoded recode retext rerefer).toForm := by
  have htypes : (m.types.map TypeDef.toForm).map recode
      = (m.recoded recode retext rerefer).types.map TypeDef.toForm := by
    rw [Module.recoded, List.map_map, List.map_map]
    exact List.map_congr_left fun type htype => h.type (hrefs type htype)
  rw [Module.toForm, h.list, List.map_cons, List.map_cons, h.head "module" (by decide), h.text, List.map_append,
    h.clauseIfAny (by decide), htypes]
  rfl

end Recoding

end JobClosure
