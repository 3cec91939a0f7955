import JobClosure.Proofs.Synthesis.Collected
import JobClosure.Proofs.Synthesis.Suffixes

/-!
# The members of a group

A group has one alias and one field for each reference that is taken into it, in the order of the spellings.
Mangling is not injective, so members are called by what is free after the members before them
(`Synthesis.Called`). Full names of aliases and names of fields are made of the names of members, so they are
told apart as well, and nothing else in the module has the name of the group or of one of its aliases
(`Module.one_alias_per_instantiation`).
-/

namespace JobClosure

namespace Synthesis

variable {module group : String} {refs : List TypeRef}

/-- What the member made for a mangled spelling is called after others: the first name that is free, which a
search comes to that has no bound of its own. -/
structure Called (earlier : List String) (base name : String) : Prop where
  chosen : Chosen earlier base name
  found : ∃ rounds ≤ earlier.length, Trial.EndsIn earlier base rounds ∧ (Trial.after earlier base rounds).name = name

theorem called_freshName (earlier : List String) (base : String) : Called earlier base (freshName earlier base) := by
  obtain ⟨rounds, hle, hends⟩ := Trial.exists_endsIn earlier base
  exact ⟨chosen_freshName earlier base, rounds, hle, hends, hends.name_eq⟩

/-- A group with one alias and one field for each reference. -/
structure OneEach (group : String) (refs : List TypeRef) (members : List String) (type : TypeDef)
    (aliases : List TypeDef) : Prop where
  name : type.fullName = group
  bases : aliases.map (·.base) = refs.map some
  fieldTypes : type.fields.map (·.type) = aliases.map fun made => ⟨made.fullName, []⟩
  aliasNames : aliases.map (·.fullName) = members.map (aliasName group)
  fieldNames : type.fields.map (·.name) = members.map ("_instance_" ++ ·)
  aliasesApart : (aliases.map (·.fullName)).Nodup
  fieldsApart : (type.fields.map (·.name)).Nodup
  called : ∀ i ref member, refs[i]? = some ref → members[i]? = some member →
    Called (members.take i) ref.mangle member

theorem aliasName_injective (group : String) : Function.Injective (aliasName group) := fun _ _ h =>
  (String.append_right_inj (group ++ "/")).mp h

theorem aliasName_ne (group member : String) : aliasName group member ≠ group := by
  intro h
  have hlength := congrArg (fun name => name.toList.length) h
  simp [aliasName, String.toList_append] at hlength

theorem called_memberNames {i : Nat} {ref : TypeRef} {member : String} (href : refs[i]? = some ref)
    (hmember : (memberNames [] refs)[i]? = some member) :
    Called ((memberNames [] refs).take i) ref.mangle member := by
  obtain ⟨hi, rfl⟩ := List.getElem?_eq_some_iff.mp href
  obtain ⟨hi', rfl⟩ := List.getElem?_eq_some_iff.mp hmember
  rw [getElem_memberNames [] refs hi hi', List.nil_append]
  exact called_freshName _ _

/-- **A group has one alias and one field for each reference.** -/
theorem oneEach_groupTypes (module group : String) (refs : List TypeRef) :
    OneEach group refs (memberNames [] refs) (groupTypes module group refs).1 (groupTypes module group refs).2 := by
  -- there are as many members as references, so both can be read off the pairs that the aliases are made of
  have hlength : (memberNames [] refs).length = refs.length := length_memberNames [] refs
  have hnodup := nodup_memberNames refs
  have haliases : (groupTypes module group refs).2.map (·.fullName) = (memberNames [] refs).map (aliasName group) := by
    rw [aliases_groupTypes, List.map_map]
    show (refs.zip (memberNames [] refs)).map (aliasName group ∘ Prod.snd) = _
    rw [← List.map_map, List.map_snd_zip hlength.le]
  have hfields : (groupTypes module group refs).1.fields.map (·.name)
      = (memberNames [] refs).map ("_instance_" ++ ·) := List.map_map
  refine ⟨rfl, ?_, ?_, haliases, hfields, ?_, ?_, fun i ref member => called_memberNames⟩
  · rw [aliases_groupTypes, List.map_map]
    show (refs.zip (memberNames [] refs)).map (some ∘ Prod.fst) = _
    rw [← List.map_map, List.map_fst_zip hlength.ge]
  · have hnamed : (groupTypes module group refs).2.map (fun made => (⟨made.fullName, []⟩ : TypeRef))
        = ((groupTypes module group refs).2.map (·.fullName)).map fun name => ⟨name, []⟩ := by
      rw [List.map_map]
      rfl
    rw [hnamed, haliases, List.map_map]
    exact List.map_map
  · rw [haliases]
    exact hnodup.map (aliasName_injective group)
  · rw [hfields]
    exact hnodup.map fun _ _ h => (String.append_right_inj "_instance_").mp h

/-- The types of a group have different names. -/
theorem nodup_newTypes (module group : String) (refs : List TypeRef) :
    ((newTypes module group refs).map (·.fullName)).Nodup := by
  have heach := oneEach_groupTypes module group refs
  refine List.nodup_cons.mpr ⟨?_, heach.aliasesApart⟩
  show (groupTypes module group refs).1.fullName ∉ _
  rw [heach.aliasNames, heach.name]
  intro hmem
  obtain ⟨member, -, heq⟩ := List.mem_map.mp hmem
  exact aliasName_ne group member heq

/-- Whether a type belongs to a group is a question of its name. -/
theorem inGroup_congr {type type' : TypeDef} (h : type.fullName = type'.fullName) :
    inGroup group type = inGroup group type' := by
  unfold inGroup
  rw [h]

end Synthesis

namespace Module

open Synthesis (Named OneEach Taken Trial newTypes)

variable {m after : Module} {index : Option Index} {group : String} {items : List Instantiation} {type : TypeDef}

/-- A group is the only thing in a module that has its names. -/
theorem filter_name_of_mem_newTypes {refs : List TypeRef} {made : TypeDef} (h : made ∈ newTypes m.name group refs) :
    ((m.outside group).addTypes (newTypes m.name group refs)).types.filter (·.fullName == made.fullName) = [made] := by
  have hkept : (m.outside group).types.filter (·.fullName == made.fullName) = [] := by
    rw [List.filter_eq_nil_iff]
    intro other hother hname
    have hin : Synthesis.inGroup group other = true :=
      (Synthesis.inGroup_congr (eq_of_beq hname)).trans (Synthesis.inGroup_of_mem_newTypes h)
    have hout := (List.mem_filter.mp hother).2
    rw [hin] at hout
    exact nomatch hout
  have hnew : (newTypes m.name group refs).filter (·.fullName == made.fullName) = [made] :=
    filter_key_eq_singleton (Synthesis.nodup_newTypes m.name group refs) h
  show ((m.outside group).types ++ newTypes m.name group refs).filter _ = [made]
  rw [List.filter_append, hkept, hnew, List.nil_append]

/--
**One alias and one field per instantiation.**

Whatever list of closed references is accepted for a group, the references are taken in the order of their
spellings, each once. The aliases have them as their bases, one by one, and the fields have the aliases as their
types. No two aliases and no two fields have one name, and no other type of the module has the name of the group
or of an alias. A member is called by the mangled spelling of its reference unless a member before it is, and
otherwise by the first suffix that is free. The search for it ends, as it does for every name and whatever is
taken.
-/
theorem one_alias_per_instantiation (hitems : Named items)
    (h : m.synthesize index group items = .ok (type, after)) :
    ∃ refs members aliases, Taken items refs ∧ OneEach group refs members type aliases ∧
      after.types = (m.outside group).types ++ type :: aliases ∧
      (∀ made ∈ type :: aliases, after.types.filter (·.fullName == made.fullName) = [made]) ∧
      ∀ used base, ∃ rounds ≤ used.length, Trial.EndsIn used base rounds := by
  obtain ⟨refs, hrefs, rfl, rfl⟩ := exists_refs_of_synthesize h
  refine ⟨refs, Synthesis.memberNames [] refs, (Synthesis.groupTypes m.name group refs).2,
    ((Synthesis.closedRefs_eq_ok_iff hitems).mp hrefs).2, Synthesis.oneEach_groupTypes m.name group refs, rfl, ?_,
    Trial.exists_endsIn⟩
  exact fun made hmade => filter_name_of_mem_newTypes hmade

end Module

/-! ## Members that collide

Three references with mangled spellings that collide: two are mangled to the same, and the third to what the
first suffix would make of that. -/

namespace Collision

open Synthesis (Named OneEach Taken)

def dotted : TypeRef := ⟨"Demo.Job", [.named "Core.Int32" []]⟩

def underscored : TypeRef := ⟨"Demo.Job", [.named "Core_Int32" []]⟩

def numbered : TypeRef := ⟨"Demo.Job.Core_Int32_2", []⟩

def items : List Instantiation := [.ref underscored, .ref dotted, .ref numbered, .ref dotted]

def refs : List TypeRef := [numbered, dotted, underscored]

def members : List String := ["Demo_Job_Core_Int32_2", "Demo_Job_Core_Int32", "Demo_Job_Core_Int32_3"]

def demo : Module := { name := "Demo", types := [{ fullName := "Demo.Work", module := "Demo" }] }

theorem memberNames_refs : Synthesis.memberNames [] refs = members := by decide +kernel

theorem named_items : Named items := by
  intro ref href
  simp only [items, List.mem_cons, Instantiation.ref.injEq, List.not_mem_nil, or_false] at href
  rcases href with rfl | rfl | rfl | rfl
  · exact ⟨by decide, ⟨by decide, trivial⟩, trivial⟩
  · exact ⟨by decide, ⟨by decide, trivial⟩, trivial⟩
  · exact ⟨by decide, trivial⟩
  · exact ⟨by decide, ⟨by decide, trivial⟩, trivial⟩

theorem taken_refs : Taken items refs := by
  refine ⟨by decide, fun ref => ?_⟩
  simp only [items, refs, List.mem_cons, Instantiation.ref.injEq, List.not_mem_nil, or_false]
  tauto

theorem closedRefs_items : Synthesis.closedRefs none items = .ok refs := by
  refine (Synthesis.closedRefs_eq_ok_iff named_items).mpr ⟨fun item hitem => ?_, taken_refs⟩
  simp only [items, List.mem_cons, List.not_mem_nil, or_false] at hitem
  rcases hitem with rfl | rfl | rfl | rfl <;> exact ⟨_, rfl⟩

def made : TypeDef := (Synthesis.groupTypes "Demo" "Jobs" refs).1

def after : Module := (demo.outside "Jobs").addTypes (Synthesis.newTypes "Demo" "Jobs" refs)

theorem synthesize_demo : demo.synthesize none "Jobs" items = .ok (made, after) :=
  Module.synthesize_of_closedRefs (by decide) closedRefs_items

/-- **Members that collide get different names**: the one that has a name of its own first, then the ones that are
mangled to the same, of which the second skips the suffix that is taken. -/
theorem members_apart : Named items ∧ demo.synthesize none "Jobs" items = .ok (made, after) ∧
    Synthesis.memberNames [] refs = members ∧
    ∃ refs members aliases, Taken items refs ∧ OneEach "Jobs" refs members made aliases ∧
      after.types = (demo.outside "Jobs").types ++ made :: aliases := by
  refine ⟨named_items, synthesize_demo, memberNames_refs, ?_⟩
  obtain ⟨refs, members, aliases, htaken, heach, htypes, -, -⟩ :=
    Module.one_alias_per_instantiation named_items synthesize_demo
  exact ⟨refs, members, aliases, htaken, heach, htypes⟩

end Collision

end JobClosure
