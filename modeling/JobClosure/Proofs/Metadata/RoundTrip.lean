import JobClosure.Proofs.Form.Layout
import JobClosure.Proofs.Metadata.Loaded
import JobClosure.Proofs.Metadata.Recoded

/-!
# A written document is read as the module

Between the form of a module and its document stands the text, and a text is read as the form that is
written for the form: bodies come back `asWritten` (`ofDocument_document_asWritten`). Everything else that
a module is written with are texts and symbols of the format itself, which always come back. So a module
whose bodies are legible and plain is read back unchanged (`Writable.read_back`).
-/

namespace JobClosure

open Form (asWritten asWrittenAll asWrittenAll_eq_map Legible legibleAll_iff)

/-! ## Bodies as they are written -/

/-- The method with the body that is written for it. -/
def Method.asWritten (method : Method) : Method := { method with body := method.body.map asWrittenAll }

/-- The type with the bodies that are written for its methods. -/
def TypeDef.asWritten (type : TypeDef) : TypeDef := { type with methods := type.methods.map Method.asWritten }

/-- The module with the bodies that are written for its methods. -/
def Module.asWritten (m : Module) : Module := { m with types := m.types.map TypeDef.asWritten }

theorem recoding_asWritten : Recoding Form.asWritten fun text => text where
  text _ := rfl
  head _ _ := rfl
  list items := by rw [Form.asWritten, asWrittenAll_eq_map]

theorem Method.recoded_asWritten (method : Method) :
    method.recoded Form.asWritten (fun text => text) = method.asWritten := by
  have hbody : (fun forms : List Form => forms.map Form.asWritten) = asWrittenAll :=
    funext fun forms => (asWrittenAll_eq_map forms).symm
  simp [recoded, asWritten, hbody]

theorem TypeDef.recoded_asWritten (type : TypeDef) :
    type.recoded Form.asWritten (fun text => text) (fun ref => ref) = type.asWritten := by
  have hfields : type.fields.map (Field.recoded (fun text => text) fun ref => ref) = type.fields := List.map_id _
  simp [recoded, asWritten, hfields, Method.recoded_asWritten]

/-- The form that is written for a module is that of the module with the bodies that are written. -/
theorem Module.asWritten_toForm (m : Module) : m.toForm.asWritten = m.asWritten.toForm := by
  have hm : m.recoded Form.asWritten (fun text => text) (fun ref => ref) = m.asWritten := by
    simp [recoded, asWritten, TypeDef.recoded_asWritten]
  rw [← hm]
  exact recoding_asWritten.module fun _ _ _ _ => rfl

/-! ## Legible modules -/

theorem inherits_legible : Inherits Legible where
  text _ := trivial
  head := by
    simp only [heads, List.forall_mem_cons]
    exact ⟨rfl, rfl, rfl, rfl, rfl, rfl, rfl, rfl, rfl, rfl, rfl, rfl, List.forall_mem_nil _⟩
  list _ hitems := legibleAll_iff.mpr hitems

/-- The bodies of a module are legible. -/
def Module.LegibleBodies (m : Module) : Prop :=
  ∀ type ∈ m.types, ∀ method ∈ type.methods, ∀ body ∈ method.body, ∀ form ∈ body, form.Legible

/-- Bodies of lists, texts and legible atoms. -/
def TypeDef.PlainBodies (type : TypeDef) : Prop :=
  ∀ method ∈ type.methods, ∀ body ∈ method.body, ∀ form ∈ body, form.Legible ∧ form.Plain

namespace Module

theorem legible_toForm {m : Module} (h : m.LegibleBodies) : m.toForm.Legible := inherits_legible.module h

theorem Spelled.asWritten {m : Module} (h : m.Spelled) : m.asWritten.Spelled := by
  intro type htype
  obtain ⟨declared, hmem, rfl⟩ := List.mem_map.mp htype
  obtain ⟨hmodule, hrefs, hmethods⟩ := h declared hmem
  refine ⟨hmodule, hrefs, fun method hmethod => ?_⟩
  obtain ⟨original, horiginal, rfl⟩ := List.mem_map.mp hmethod
  exact hmethods original horiginal

/-- **A written document is read as the module, with its bodies as they are written.** -/
theorem ofDocument_document_asWritten {m : Module} (h : m.Spelled) (hbodies : m.LegibleBodies)
    (path : Option Path) : ofDocument path m.document = .ok (m.asWritten.asRead path) := by
  rw [ofDocument, document, Form.read_document (legible_toForm hbodies), asWritten_toForm]
  exact ofForm_toForm h.asWritten path

theorem legibleBodies_of_plainBodies {m : Module} (h : ∀ type ∈ m.types, type.PlainBodies) : m.LegibleBodies :=
  fun type htype method hmethod body hbody form hform => (h type htype method hmethod body hbody form hform).1

theorem asWritten_eq_of_plainBodies {m : Module} (h : ∀ type ∈ m.types, type.PlainBodies) : m.asWritten = m := by
  have hmethod : ∀ type ∈ m.types, ∀ method ∈ type.methods, method.asWritten = method := by
    intro type htype method hmethod
    have hplain := h type htype method hmethod
    cases hbody : method.body with
    | none => rw [Method.asWritten, hbody, Option.map_none, ← hbody]
    | some body =>
      have hbody' : asWrittenAll body = body := by
        rw [Form.asWrittenAll_eq_self_iff, Form.plainAll_iff]
        exact fun form hform => (hplain body hbody form hform).2
      rw [Method.asWritten, hbody, Option.map_some, hbody', ← hbody]
  have htype : ∀ type ∈ m.types, type.asWritten = type := by
    intro type htype
    have hmethods : type.methods.map Method.asWritten = type.methods := by
      rw [List.map_congr_left (hmethod type htype), List.map_id']
    rw [TypeDef.asWritten, hmethods]
  rw [asWritten, List.map_congr_left htype, List.map_id']

/-- With such bodies the document of a module is read as its form. -/
theorem ofDocument_document {m : Module} (h : ∀ type ∈ m.types, type.PlainBodies) (path : Option Path) :
    ofDocument path m.document = ofForm path m.toForm := by
  rw [ofDocument, document, Form.read_document (legible_toForm (legibleBodies_of_plainBodies h)), asWritten_toForm,
    asWritten_eq_of_plainBodies h]
  rfl

/-- A module that is read back unchanged: its references can be spelled where they stand, and its bodies
are made of lists, texts and legible atoms. -/
structure Writable (m : Module) : Prop where
  spelled : m.Spelled
  bodies : ∀ type ∈ m.types, ∀ method ∈ type.methods, ∀ body ∈ method.body,
    ∀ form ∈ body, form.Legible ∧ form.Plain

theorem Writable.asWritten_eq {m : Module} (h : m.Writable) : m.asWritten = m := asWritten_eq_of_plainBodies h.bodies

/-- A module that can be written down is what reading its document gives. -/
theorem Writable.loaded {m : Module} (h : m.Writable) : (m.asRead none).Loaded := by
  have hread := ofDocument_document_asWritten h.spelled (legibleBodies_of_plainBodies h.bodies) none
  rw [h.asWritten_eq] at hread
  exact .document hread

/-- **A written module is read back.** Its document is accepted and says of the module all that it holds
but its path and its symbols. -/
theorem Writable.read_back {m : Module} (h : m.Writable) (path : Option Path) :
    ofDocument path m.document
      = .ok { name := m.name, path, types := m.types, references := m.references } := by
  have hread := ofDocument_document_asWritten h.spelled (legibleBodies_of_plainBodies h.bodies) path
  rw [h.asWritten_eq] at hread
  exact hread

/-! A template with a base, an interface and a field that use its parameter, and a body with a text that
needs escapes and holds a line break. -/

namespace Sample

def parameter : TypeArg := .param ⟨"Demo.Job", "T", false⟩

def body : List Form :=
  [.list [.symbol "call", .text "Demo.Work<!T>", .text "a\"b\\\n", .list [.whole (-12)]], .list []]

def run : Method where
  id := ⟨"Demo.Job", "Run", ["not a type"]⟩
  genericParams := ["U"]
  body := some body
  module := "Demo"

def job : TypeDef where
  fullName := "Demo.Job"
  genericParams := ["T"]
  base := some ⟨"Core.Pair", [parameter, .named "Core.Int32" []]⟩
  interfaces := [⟨"Core.IJob", []⟩]
  attributes := ["Sealed"]
  methods := [run]
  fields := [⟨"next", ⟨"Demo.Job", [parameter]⟩⟩]
  module := "Demo"

def demo : Module where
  name := "Demo"
  types := [job]
  references := ["Core", "(odd) name"]

theorem declares_parameter : job.scope.Declares ⟨"Demo.Job", "T", false⟩ :=
  ⟨rfl, List.mem_singleton_self _⟩

theorem spelled_job : job.Spelled "Demo" := by
  refine ⟨rfl, ?_, ?_⟩
  · have hrefs : job.refs = [⟨"Core.Pair", [parameter, .named "Core.Int32" []]⟩, ⟨"Core.IJob", []⟩,
        ⟨"Demo.Job", [parameter]⟩] := rfl
    rw [hrefs]
    simp only [List.forall_mem_cons, List.not_mem_nil, false_implies, implies_true, and_true]
    refine ⟨⟨⟨rfl, rfl, ⟨rfl, trivial⟩, trivial⟩, ?_⟩, ⟨⟨rfl, trivial⟩, nofun⟩, ⟨rfl, rfl, trivial⟩, ?_⟩
    · intro p hp
      rw [List.mem_singleton.mp hp]
      exact declares_parameter
    · intro p hp
      rw [List.mem_singleton.mp hp]
      exact declares_parameter
  · intro method hmethod
    rw [List.mem_singleton.mp hmethod]
    exact ⟨rfl, rfl⟩

theorem writable_demo : demo.Writable := by
  refine ⟨?_, ?_⟩
  · intro type htype
    rw [List.mem_singleton.mp htype]
    exact spelled_job
  · intro type htype method hmethod body hbody
    rw [List.mem_singleton.mp htype] at hmethod
    rw [List.mem_singleton.mp hmethod] at hbody
    rw [← Option.some.inj hbody]
    have hlegible : Form.LegibleAll Sample.body :=
      ⟨⟨rfl, trivial, trivial, ⟨show 2 ≤ 4300 by decide, trivial⟩, trivial⟩, trivial, trivial⟩
    have hplain : Form.PlainAll Sample.body :=
      ⟨⟨trivial, trivial, trivial, ⟨trivial, trivial⟩, trivial⟩, trivial, trivial⟩
    exact fun form hform => ⟨legibleAll_iff.mp hlegible form hform, Form.plainAll_iff.mp hplain form hform⟩

theorem demo_read_back : demo.Writable ∧
    ofDocument none demo.document
      = .ok { name := "Demo", types := [job], references := ["Core", "(odd) name"] } :=
  ⟨writable_demo, Writable.read_back writable_demo none⟩

end Sample

end Module

end JobClosure
