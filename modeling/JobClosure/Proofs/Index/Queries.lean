import JobClosure.Proofs.Index.Interfaces
import JobClosure.Proofs.Metadata.Loaded
import Mathlib

/-!
# Questions to an index, one after the other

An index computes the interfaces of a type once, and remembers them by the name of the type. But it can be asked about
any definition that a module holds, and several modules can define one name. Whichever of these definitions is asked
about first gives the answer for all of them (`Index.answers_exact`).

So what is remembered after some questions is known (`Index.remembered`): for every name that was asked about, the
interfaces of the definition that was asked about first. This is an invariant of asking (`Index.ask_remembered`), and
every other statement here is read off it. No answer depends on the questions before it exactly if the definitions of
one name have the same interfaces. For canonical definitions it is so, as there is one of every name.
-/

namespace JobClosure

namespace Index

/-- A question about a definition. -/
inductive Query
  | interfaces (type : TypeDef)
  | capability (marker : String) (type : TypeDef)

inductive Answer
  | interfaces (found : List TypeDef)
  | capability (marked : Bool)

/-- The definition that is asked about. -/
def Query.type : Query → TypeDef
  | .interfaces type => type
  | .capability _ type => type

/-- The same question about another definition. -/
def Query.about (type : TypeDef) : Query → Query
  | .interfaces _ => .interfaces type
  | .capability marker _ => .capability marker type

/-- The answer to a question, and what is remembered then. -/
def ask (ix : Index) (memo : Memo) : Query → Answer × Memo
  | .interfaces type =>
    let (found, memo) := ix.interfacesOf memo type
    (.interfaces found, memo)
  | .capability marker type =>
    let (marked, memo) := ix.hasCapability marker memo type
    (.capability marked, memo)

/-- The answers to several questions in order. -/
def answers (ix : Index) (memo : Memo) : List Query → List Answer
  | [] => []
  | q :: queries => (ix.ask memo q).1 :: ix.answers (ix.ask memo q).2 queries

/-- The answer to a question that is the first one. -/
def freshAnswer (ix : Index) (q : Query) : Answer := (ix.ask [] q).1

/-- What is remembered when the definitions `asked` have been asked about. -/
def remembered (ix : Index) (asked : List TypeDef) : Memo :=
  (distinctBy (·.fullName) asked).map fun type => (type.fullName, ix.interfaceClosure type)

/-- The first definition with the name of `type` that was asked about, or `type` itself. -/
def firstNamesake (asked : List TypeDef) (type : TypeDef) : TypeDef :=
  (asked.find? (·.fullName == type.fullName)).getD type

variable {ix : Index} {asked : List TypeDef} {type other : TypeDef}

/-! ## One question -/

theorem firstNamesake_of_find? (h : asked.find? (·.fullName == type.fullName) = some other) :
    firstNamesake asked type = other := by
  rw [firstNamesake, h, Option.getD_some]

/-- The first namesake was asked about before, or is asked about now. -/
theorem firstNamesake_cases (asked : List TypeDef) (type : TypeDef) :
    firstNamesake asked type = type ∨
      firstNamesake asked type ∈ asked ∧ (firstNamesake asked type).fullName = type.fullName := by
  cases h : asked.find? (·.fullName == type.fullName) with
  | none => exact .inl (by rw [firstNamesake, h, Option.getD_none])
  | some other =>
    rw [firstNamesake_of_find? h]
    exact .inr ⟨List.mem_of_find?_eq_some h, eq_of_beq (List.find?_some h :)⟩

theorem lookup_map_fullName (types : List TypeDef) (f : TypeDef → List TypeDef) (name : String) :
    (types.map fun type => (type.fullName, f type)).lookup name = (types.find? (·.fullName == name)).map f := by
  induction types with
  | nil => rfl
  | cons type types ih =>
    rw [List.map_cons, List.lookup_cons, List.find?_cons, Bool.beq_comm]
    cases type.fullName == name with
    | true => rfl
    | false => exact ih

theorem lookup_remembered (ix : Index) (asked : List TypeDef) (name : String) :
    (ix.remembered asked).lookup name = (asked.find? (·.fullName == name)).map ix.interfaceClosure := by
  rw [remembered, lookup_map_fullName, find?_distinctBy]

/-- **What a question about interfaces does.** It gives the interfaces of the first namesake, and the definition counts
as asked about. -/
theorem interfacesOf_remembered (ix : Index) (asked : List TypeDef) (type : TypeDef) :
    ix.interfacesOf (ix.remembered asked) type
      = (ix.interfaceClosure (firstNamesake asked type), ix.remembered (asked ++ [type])) := by
  rw [interfacesOf, lookup_remembered]
  cases h : asked.find? (·.fullName == type.fullName) with
  | none =>
    have hadded : distinctBy (·.fullName) (asked ++ [type]) = distinctBy (·.fullName) asked ++ [type] :=
      distinctBy_concat_of_not_mem (find?_key_eq_none_iff.mp h)
    rw [firstNamesake, h, remembered, remembered, hadded, List.map_append]
    rfl
  | some other =>
    have hname : other.fullName = type.fullName := eq_of_beq (List.find?_some h :)
    have hkept : distinctBy (·.fullName) (asked ++ [type]) = distinctBy (·.fullName) asked :=
      distinctBy_concat_of_mem (hname ▸ List.mem_map_of_mem (List.mem_of_find?_eq_some h))
    rw [firstNamesake_of_find? h, remembered, remembered, hkept]
    rfl

/-- An answer depends on the interfaces of the definition only. -/
theorem freshAnswer_about_congr (q : Query) (h : ix.interfaceClosure type = ix.interfaceClosure other) :
    ix.freshAnswer (q.about type) = ix.freshAnswer (q.about other) := by
  cases q with
  | interfaces asked => exact congrArg Answer.interfaces h
  | capability marker asked => exact congrArg (fun found => Answer.capability (found.any (·.attributes.contains marker))) h

theorem Query.about_type (q : Query) : q.about q.type = q := by
  cases q <;> rfl

/-- **What a question does.** It is answered as if it were the first one and about the first namesake. -/
theorem ask_remembered (ix : Index) (asked : List TypeDef) (q : Query) :
    ix.ask (ix.remembered asked) q
      = (ix.freshAnswer (q.about (firstNamesake asked q.type)), ix.remembered (asked ++ [q.type])) := by
  cases q with
  | interfaces type =>
    rw [ask, interfacesOf_remembered]
    rfl
  | capability marker type =>
    rw [ask, hasCapability, interfacesOf_remembered]
    rfl

/-! ## All questions -/

/-- **All answers**, after the definitions `asked` have been asked about. -/
theorem answers_remembered (ix : Index) (asked : List TypeDef) (queries : List Query) :
    ix.answers (ix.remembered asked) queries = queries.mapIdx fun i q =>
      ix.freshAnswer (q.about (firstNamesake (asked ++ (queries.take i).map Query.type) q.type)) := by
  induction queries generalizing asked with
  | nil => rfl
  | cons q queries ih =>
    rw [answers, ask_remembered, ih, List.mapIdx_cons]
    simp only [List.take_zero, List.map_nil, List.append_nil, List.take_succ_cons, List.map_cons, List.append_assoc,
      List.cons_append, List.nil_append]

/-- Questions about definitions that agree with their namesakes are answered as if each was the first one. -/
theorem answers_eq_map_freshAnswer {P : TypeDef → Prop}
    (hagree : ∀ a b, P a → P b → a.fullName = b.fullName → ix.interfaceClosure a = ix.interfaceClosure b)
    (asked : List TypeDef) (hasked : ∀ type ∈ asked, P type) {queries : List Query} (hqueries : ∀ q ∈ queries, P q.type) :
    ix.answers (ix.remembered asked) queries = queries.map ix.freshAnswer := by
  induction queries generalizing asked with
  | nil => rfl
  | cons q queries ih =>
    obtain ⟨hq, hrest⟩ := List.forall_mem_cons.mp hqueries
    have hnext : ∀ type ∈ asked ++ [q.type], P type :=
      List.forall_mem_append.mpr ⟨hasked, List.forall_mem_singleton.mpr hq⟩
    -- the first namesake stands for the definition: it is the same or agrees with it
    have hanswer : ix.freshAnswer (q.about (firstNamesake asked q.type)) = ix.freshAnswer q := by
      rcases firstNamesake_cases asked q.type with heq | ⟨hmem, hname⟩
      · rw [heq, q.about_type]
      · rw [freshAnswer_about_congr q (hagree _ _ (hasked _ hmem) hq hname), q.about_type]
    rw [answers, ask_remembered, hanswer, ih _ hnext hrest, List.map_cons]

/-- A definition that is asked about second is answered for the first one. -/
theorem interfaceClosure_eq_of_answers (hname : type.fullName = other.fullName)
    (h : ix.answers [] [.interfaces type, .interfaces other]
      = [Query.interfaces type, .interfaces other].map ix.freshAnswer) :
    ix.interfaceClosure type = ix.interfaceClosure other := by
  have hfirst : firstNamesake [type] other = type :=
    firstNamesake_of_find? (List.find?_cons_of_pos (beq_iff_eq.mpr hname))
  have hall := answers_remembered ix [] [.interfaces type, .interfaces other]
  have hsecond := congrArg (·[1]?) (hall.symm.trans h)
  change some (Answer.interfaces (ix.interfaceClosure (firstNamesake [type] other)))
    = some (.interfaces (ix.interfaceClosure other)) at hsecond
  rw [hfirst] at hsecond
  exact Answer.interfaces.inj (Option.some.inj hsecond)

/-! ## Definitions that agree -/

/-- A search that begins with a definition goes on with what it names. -/
theorem interfaceClosure_eq (ix : Index) (type : TypeDef) : ix.interfaceClosure type
    = ix.closeInterfaces (((ix.types.map (·.fullName)).insert type.fullName).erase type.fullName)
      ((ix.namedInterfaces type).foldl (addDistinct (·.fullName)) [])
      (ix.namedInterfaces type ++ (ix.baseType? type).toList) := by
  rw [interfaceClosure, closeInterfaces, dif_pos List.mem_insert_self]
  rfl

/-- Definitions of one name that name the same have the same interfaces. -/
theorem interfaceClosure_congr (hname : type.fullName = other.fullName)
    (hinterfaces : ix.namedInterfaces type = ix.namedInterfaces other) (hbase : ix.baseType? type = ix.baseType? other) :
    ix.interfaceClosure type = ix.interfaceClosure other := by
  rw [interfaceClosure_eq, interfaceClosure_eq, hname, hinterfaces, hbase]

/-- **Modules that agree on the hierarchy** make an index whose answers do not depend on each other. -/
theorem answers_eq_map_freshAnswer_of_edges
    (h : ∀ a ∈ ix.allTypes, ∀ b ∈ ix.allTypes, a.fullName = b.fullName →
      ix.namedInterfaces a = ix.namedInterfaces b ∧ ix.baseType? a = ix.baseType? b)
    {queries : List Query} (hqueries : ∀ q ∈ queries, q.type ∈ ix.allTypes) :
    ix.answers [] queries = queries.map ix.freshAnswer := by
  refine answers_eq_map_freshAnswer (P := (· ∈ ix.allTypes)) (fun a b ha hb hname => ?_) [] nofun hqueries
  obtain ⟨hinterfaces, hbase⟩ := h a ha b hb hname
  exact interfaceClosure_congr hname hinterfaces hbase

/-! ## Every answer -/

/--
**All answers of an index.**

Each question is answered as the first question on a new index would be, if it were about the definition of this name
that was asked about first. So all answers about definitions of the modules are those of a new index exactly if
definitions of one name have the same interfaces. All answers about canonical definitions are.
-/
theorem answers_exact (modules : List Module) :
    (∀ queries, (ofModules modules).answers [] queries = queries.mapIdx fun i q =>
      (ofModules modules).freshAnswer (q.about (firstNamesake ((queries.take i).map Query.type) q.type))) ∧
    ((∀ queries, (∀ q ∈ queries, q.type ∈ (ofModules modules).allTypes) →
        (ofModules modules).answers [] queries = queries.map (ofModules modules).freshAnswer) ↔
      ∀ a ∈ (ofModules modules).allTypes, ∀ b ∈ (ofModules modules).allTypes, a.fullName = b.fullName →
        (ofModules modules).interfaceClosure a = (ofModules modules).interfaceClosure b) ∧
    (∀ queries, (∀ q ∈ queries, (ofModules modules).Canonical q.type) →
      (ofModules modules).answers [] queries = queries.map (ofModules modules).freshAnswer) := by
  refine ⟨answers_remembered _ [], ⟨fun h a ha b hb hname => ?_, fun hagree queries hqueries => ?_⟩,
    fun queries hqueries => ?_⟩
  · refine interfaceClosure_eq_of_answers hname (h _ fun q hq => ?_)
    rcases List.mem_cons.mp hq with rfl | hq
    · exact ha
    · obtain rfl := List.mem_singleton.mp hq
      exact hb
  · exact answers_eq_map_freshAnswer (P := (· ∈ (ofModules modules).allTypes))
      (fun a b ha hb => hagree a ha b hb) [] nofun hqueries
  · refine answers_eq_map_freshAnswer (P := (ofModules modules).Canonical) ?_ [] nofun hqueries
    intro a b ha hb hname
    rw [ha.eq_of_fullName hb hname]

end Index

/-! ## A name with two definitions -/

namespace Namesakes

def mainDocument : String := "(module \"Demo\"
  (type \"Core.IJob\" (interface) (attributes \"Unity.Jobs.LowLevel.Unsafe.JobProducerTypeAttribute\"))
  (type \"Demo.Work\" (interfaces \"Core.IJob\")))"

def copyDocument : String := "(module \"Copy\" (type \"Demo.Work\"))"

def job : TypeDef where
  fullName := "Core.IJob"
  isInterface := true
  attributes := [Index.defaultMarker]
  module := "Demo"

def work : TypeDef where
  fullName := "Demo.Work"
  interfaces := [⟨"Core.IJob", []⟩]
  module := "Demo"

/-- A definition of the same name without interfaces. -/
def copy : TypeDef where
  fullName := "Demo.Work"
  module := "Copy"

def modules : List Module := [{ name := "Demo", types := [job, work] }, { name := "Copy", types := [copy] }]

set_option maxRecDepth 4000 in
theorem loaded_modules : ∀ m ∈ modules, m.Loaded :=
  List.forall_mem_cons.mpr ⟨.of_characters mainDocument String.toList_ofList (by cbv),
    List.forall_mem_singleton.mpr (.of_characters copyDocument String.toList_ofList (by cbv))⟩

/-- **An answer that depends on an earlier question.** The second definition of a name implements nothing, and so it is
answered on a new index. After a question about the first definition it has the capability of that one. -/
theorem copy_after_work : (∀ m ∈ modules, m.Loaded) ∧
    work ∈ (Index.ofModules modules).allTypes ∧ copy ∈ (Index.ofModules modules).allTypes ∧
    (Index.ofModules modules).freshAnswer (.capability Index.defaultMarker copy) = .capability false ∧
    (Index.ofModules modules).answers [] [.interfaces work, .capability Index.defaultMarker copy]
      = [.interfaces [job], .capability true] := by
  refine ⟨loaded_modules, ?_, ?_, ?_, ?_⟩
  · exact List.mem_cons_of_mem job List.mem_cons_self
  · exact List.mem_cons_of_mem job (List.mem_cons_of_mem work List.mem_cons_self)
  · cbv
  · cbv

end Namesakes

end JobClosure
