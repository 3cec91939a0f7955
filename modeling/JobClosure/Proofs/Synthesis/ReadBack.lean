import JobClosure.Proofs.Metadata.RoundTrip
import JobClosure.Proofs.Spelling.Nested
import JobClosure.Proofs.Synthesis.Members

/-!
# Reading a group back

The name of a group goes into the full names of its aliases, and these are written down as the types of its
fields without being looked at. Only when the document is read are they parsed. So a group of any name is
accepted, but it is read back as it was made exactly if its name is a name of the grammar or it has no members
(`Module.group_read_back`). The rest of the document does not depend on the name: everything outside the group is
read as before, and so are the aliases.
-/

namespace JobClosure

open Spelling (isName isNameChar withoutBlanks)

namespace Synthesis

variable {module group : String} {members : List String} {refs : List TypeRef}

/-- The reference to an alias, read in a document: the blanks before the name of the group are lost, and only what
is left of it has to be a name. -/
theorem readRef_aliasName (scope : Scope) (group : String) {member : String}
    (hmember : ∀ c ∈ member.toList, isNameChar c = true) :
    TypePart.readRef scope (aliasName group member) =
      if isName (withoutBlanks group) then .ok ⟨aliasName (withoutBlanks group) member, []⟩
      else .error (.typeReference scope.typeName (.malformed (aliasName group member))) := by
  rw [TypePart.readRef, Scope.parseNamed, Scope.parse, aliasName, Spelling.parse_below group hmember]
  split <;> rfl

/-- The type of a group as it is read: the fields have the aliases of `named` as their types. -/
def readGroup (module group named : String) (members : List String) : TypeDef :=
  { groupType module group members with
    fields := members.map fun member => ⟨"_instance_" ++ member, ⟨aliasName named member, []⟩⟩ }

theorem readGroup_self (module group : String) (members : List String) :
    readGroup module group group members = groupType module group members := rfl

/-- A group is read field by field. -/
theorem read_groupType (module group : String) (members : List String) :
    TypeDef.read module (groupType module group members).toForm =
      ((members.map (aliasField group)).map Field.toForm).mapM (TypePart.read module { typeName := group }) >>=
        fun parts => .ok (.ofParts module group [] parts) := by
  have hgeneric := (groupType module group members).readGenericParams_clauses
  rw [TypeDef.clauses, toForm_groupType] at hgeneric
  have hname : (Form.list (.symbol "type" :: .text group :: (members.map (aliasField group)).map Field.toForm)).textOperand
      0 .typeName = .ok group := rfl
  rw [TypeDef.read, toForm_groupType, hname]
  dsimp only
  rw [hgeneric]
  rfl

theorem read_field (module : String) (scope : Scope) (group member : String) :
    TypePart.read module scope (aliasField group member).toForm =
      TypePart.readRef scope (aliasName group member) >>= fun ref => .ok (.field ⟨"_instance_" ++ member, ref⟩) := rfl

/-- **A group is read if what is left of its name is a name**, with that name in the types of its fields. -/
theorem read_groupType_of_isName (module : String) (hname : isName (withoutBlanks group) = true)
    (hmembers : ∀ member ∈ members, ∀ c ∈ member.toList, isNameChar c = true) :
    TypeDef.read module (groupType module group members).toForm
      = .ok (readGroup module group (withoutBlanks group) members) := by
  have hfields : ((members.map (aliasField group)).map Field.toForm).mapM (TypePart.read module { typeName := group })
      = .ok (members.map fun member =>
          .field ⟨"_instance_" ++ member, ⟨aliasName (withoutBlanks group) member, []⟩⟩) := by
    rw [List.map_map]
    refine mapM_map_eq_ok fun member hmember => ?_
    show TypePart.read module { typeName := group } (aliasField group member).toForm = _
    rw [read_field, readRef_aliasName _ _ (hmembers member hmember), if_pos hname]
    rfl
  have hparts : (readGroup module group (withoutBlanks group) members).parts = members.map fun member =>
      .field ⟨"_instance_" ++ member, ⟨aliasName (withoutBlanks group) member, []⟩⟩ := by
    simp [TypeDef.parts, readGroup, groupType, ifAny, Function.comp_def]
  rw [read_groupType, hfields, ← hparts]
  exact congrArg Except.ok (readGroup module group (withoutBlanks group) members).ofParts_parts

/-- A group with a name of the grammar, or without members, is read as it is. -/
theorem read_groupType_self (module : String) (h : members = [] ∨ isName group = true)
    (hmembers : ∀ member ∈ members, ∀ c ∈ member.toList, isNameChar c = true) :
    TypeDef.read module (groupType module group members).toForm = .ok (groupType module group members) := by
  rcases h with rfl | hname
  · exact read_groupType module group []
  · have hself := Spelling.withoutBlanks_eq_self hname
    have hleft : isName (withoutBlanks group) = true := by rwa [hself]
    have hread := read_groupType_of_isName module hleft hmembers
    rwa [hself, readGroup_self] at hread

/-- **A group with members is refused otherwise**, for the type of its first field. -/
theorem read_groupType_of_not_isName (module : String) {first : String} {rest : List String}
    (hname : ¬ isName (withoutBlanks group) = true) (hfirst : ∀ c ∈ first.toList, isNameChar c = true) :
    TypeDef.read module (groupType module group (first :: rest)).toForm
      = .error (.typeReference group (.malformed (aliasName group first))) := by
  rw [read_groupType, List.map_cons, List.map_cons, List.mapM_cons, read_field, readRef_aliasName _ _ hfirst,
    if_neg hname]
  rfl

end Synthesis

namespace Module

open Synthesis (Named OneEach Taken aliasField aliasName closedRefs groupType groupTypes inGroup memberNames newTypes
  readGroup)

variable {m after : Module} {index : Option Index} {group : String} {items : List Instantiation} {type : TypeDef}
  {refs : List TypeRef}

/-- What is read of a module with a group: what is outside the group, the group and its aliases. -/
def withRead (m : Module) (path : Option Path) (group : String) (read : TypeDef) (aliases : List TypeDef) : Module where
  name := m.name
  path := path
  types := (m.outside group).types ++ read :: aliases
  references := m.references

theorem plainBodies_addTypes (hm : m.Writable) :
    ∀ type ∈ ((m.outside group).addTypes (newTypes m.name group refs)).types, type.PlainBodies := by
  intro type htype
  rcases List.mem_append.mp htype with htype | htype
  · exact hm.bodies type (List.mem_of_mem_filter htype)
  · rw [TypeDef.PlainBodies, Synthesis.methods_of_mem_newTypes htype]
    exact fun method hmethod => absurd hmethod List.not_mem_nil

theorem spelled_outside (hm : m.Writable) : ∀ type ∈ (m.outside group).types, type.Spelled m.name :=
  fun type htype => hm.spelled type (List.mem_of_mem_filter htype)

theorem spelled_aliases (hrefs : ∀ ref ∈ refs, ref.toArg.Spellable ∧ ref.isOpen = false) :
    ∀ made ∈ (groupTypes m.name group refs).2, made.Spelled m.name := by
  intro made hmade
  rw [Synthesis.aliases_groupTypes] at hmade
  obtain ⟨⟨ref, member⟩, hpair, rfl⟩ := List.mem_map.mp hmade
  exact Synthesis.spelled_aliasType m.name group member (hrefs ref (List.of_mem_zip hpair).1)

/-- **The document of a module with a group is read type by type**, of which only the group may be read as another
one. -/
theorem ofDocument_of_read (hm : m.Writable) (hrefs : ∀ ref ∈ refs, ref.toArg.Spellable ∧ ref.isOpen = false)
    {read : TypeDef} (hread : TypeDef.read m.name (groupType m.name group (memberNames [] refs)).toForm = .ok read)
    (path : Option Path) :
    ofDocument path ((m.outside group).addTypes (newTypes m.name group refs)).document
      = .ok (m.withRead path group read (groupTypes m.name group refs).2) := by
  rw [ofDocument_document (plainBodies_addTypes hm)]
  refine ofForm_of_readsTypes (m := (m.outside group).addTypes (newTypes m.name group refs)) ?_ path
  refine List.rel_append ?_ (.cons hread ?_)
  · exact List.forall₂_same.mpr fun type htype => TypeDef.read_toForm (spelled_outside hm type htype)
  · exact List.forall₂_same.mpr fun type htype => TypeDef.read_toForm (spelled_aliases hrefs type htype)

theorem ofDocument_of_error (hm : m.Writable) {error : Error}
    (hread : TypeDef.read m.name (groupType m.name group (memberNames [] refs)).toForm = .error error)
    (path : Option Path) :
    ofDocument path ((m.outside group).addTypes (newTypes m.name group refs)).document = .error error := by
  rw [ofDocument_document (plainBodies_addTypes hm)]
  exact ofForm_of_error (m := (m.outside group).addTypes (newTypes m.name group refs)) rfl (spelled_outside hm) hread path

theorem isNameChar_of_members (hrefs : ∀ ref ∈ refs, ref.toArg.Spellable ∧ ref.isOpen = false) :
    ∀ member ∈ memberNames [] refs, ∀ c ∈ member.toList, isNameChar c = true :=
  Synthesis.isNameChar_of_mem_memberNames fun ref href => (hrefs ref href).1

/-- **A group with a name of the grammar, or without members, is read as it was made.** -/
theorem ofDocument_of_isName (hm : m.Writable) (hrefs : ∀ ref ∈ refs, ref.toArg.Spellable ∧ ref.isOpen = false)
    (hgroup : refs = [] ∨ isName group = true) (path : Option Path) :
    ofDocument path ((m.outside group).addTypes (newTypes m.name group refs)).document
      = .ok (m.withRead path group (groupTypes m.name group refs).1 (groupTypes m.name group refs).2) := by
  have hnil : memberNames [] refs = [] ∨ isName group = true := hgroup.imp_left fun hnil => by rw [hnil, memberNames]
  exact ofDocument_of_read hm hrefs (Synthesis.read_groupType_self m.name hnil (isNameChar_of_members hrefs)) path

/-- **Any other group** is read under the name that is left without the blanks before it, or cannot be read. -/
theorem ofDocument_of_not_isName {ref : TypeRef} {rest : List TypeRef} (hm : m.Writable)
    (hrefs : ∀ other ∈ ref :: rest, other.toArg.Spellable ∧ other.isOpen = false) (path : Option Path) :
    ofDocument path ((m.outside group).addTypes (newTypes m.name group (ref :: rest))).document =
      if isName (withoutBlanks group) then
        .ok (m.withRead path group (readGroup m.name group (withoutBlanks group) (memberNames [] (ref :: rest)))
          (groupTypes m.name group (ref :: rest)).2)
      else .error (.typeReference group (.malformed (aliasName group ref.mangle))) := by
  have hmembers := isNameChar_of_members hrefs
  split
  · rename_i hname
    exact ofDocument_of_read hm hrefs (Synthesis.read_groupType_of_isName m.name hname hmembers) path
  · rename_i hname
    refine ofDocument_of_error hm ?_ path
    rw [Synthesis.memberNames_cons] at hmembers ⊢
    exact Synthesis.read_groupType_of_not_isName m.name hname (hmembers ref.mangle List.mem_cons_self)

/-- A module holds a group of a type, with the same fields, and an alias for each reference. -/
structure HoldsGroup (read : Module) (type : TypeDef) (items : List Instantiation) : Prop where
  group : ∃ found ∈ read.types, found.fullName = type.fullName ∧ found.fields = type.fields
  aliases : ∀ ref, .ref ref ∈ items → ∃ declared ∈ type.fields, ∃ made ∈ read.types,
    made.fullName = declared.type.name ∧ made.base = some ref

/-- A group that was made holds what it was made for. -/
theorem holdsGroup_of_oneEach {read : Module} {members : List String} {aliases : List TypeDef}
    (htaken : Taken items refs) (heach : OneEach group refs members type aliases)
    (htypes : ∀ made ∈ type :: aliases, made ∈ read.types) : read.HoldsGroup type items := by
  refine ⟨⟨type, htypes type List.mem_cons_self, rfl, rfl⟩, fun ref href => ?_⟩
  have hbase : some ref ∈ aliases.map (·.base) := by
    rw [heach.bases]
    exact List.mem_map_of_mem ((htaken.mem_iff ref).mpr href)
  obtain ⟨made, hmade, hbase⟩ := List.mem_map.mp hbase
  have hfield : (⟨made.fullName, []⟩ : TypeRef) ∈ type.fields.map (·.type) := by
    rw [heach.fieldTypes]
    exact List.mem_map_of_mem hmade
  obtain ⟨declared, hdeclared, htype⟩ := List.mem_map.mp hfield
  exact ⟨declared, hdeclared, made, htypes made (List.mem_cons_of_mem _ hmade), by rw [htype], hbase⟩

theorem aliasName_left_inj {named member : String} (h : aliasName named member = aliasName group member) :
    named = group :=
  (String.append_left_inj "/").mp ((String.append_left_inj member).mp h)

/-- A group that is read with another name in its fields is not the one that was written. -/
theorem not_holdsGroup_withRead {path : Option Path} {named : String} {ref : TypeRef} {rest : List TypeRef}
    (hnamed : named ≠ group) (hrefs : refs = ref :: rest) :
    ¬ (m.withRead path group (readGroup m.name group named (memberNames [] refs))
      (groupTypes m.name group refs).2).HoldsGroup (groupTypes m.name group refs).1 items := by
  rintro ⟨⟨found, hfound, hname, hfields⟩, -⟩
  have heach := Synthesis.oneEach_groupTypes m.name group refs
  rcases List.mem_append.mp hfound with hfound | hfound
  · -- outside the group nothing has its name
    have hin : inGroup group found = true :=
      (Synthesis.inGroup_congr hname).trans (Synthesis.inGroup_of_mem_newTypes List.mem_cons_self)
    have hout := (List.mem_filter.mp hfound).2
    rw [hin] at hout
    exact nomatch hout
  · rcases List.mem_cons.mp hfound with rfl | hfound
    · rw [hrefs, groupTypes, readGroup, groupType, Synthesis.memberNames_cons] at hfields
      have hfirst : (⟨_, ⟨aliasName named _, []⟩⟩ : Field) = ⟨_, ⟨aliasName group _, []⟩⟩ := (List.cons.inj hfields).1
      have hread := congrArg (fun declared => declared.type.name) hfirst
      exact hnamed (aliasName_left_inj hread)
    · have hmem : found.fullName ∈ (groupTypes m.name group refs).2.map (·.fullName) := List.mem_map_of_mem hfound
      rw [heach.aliasNames, hname, heach.name] at hmem
      obtain ⟨member, -, heq⟩ := List.mem_map.mp hmem
      exact Synthesis.aliasName_ne group member heq

/--
**A group can be read back exactly if it has a name of the grammar, or no members.**

Then the document of the module is read as everything the module has. Any other name of a group with members goes
into the types of the fields and cannot be read there as it was written. If it is a name but for blanks before it,
these are lost in the types of the fields, which name no alias then; otherwise the document is refused for the type
of the first field.
-/
theorem group_read_back (hm : m.Writable) (hitems : Named items)
    (h : m.synthesize index group items = .ok (type, after)) (path : Option Path) :
    ((∃ read, ofDocument path after.document = .ok read ∧ read.HoldsGroup type items) ↔
      items = [] ∨ isName group = true) ∧
    (items = [] ∨ isName group = true → ofDocument path after.document
      = .ok { name := m.name, path, types := after.types, references := m.references }) ∧
    (items ≠ [] → ¬ isName group = true →
      (isName (withoutBlanks group) = true ∧ ∃ members aliases, type.fields = members.map (aliasField group) ∧
        ofDocument path after.document = .ok (m.withRead path group
          (readGroup m.name group (withoutBlanks group) members) aliases)) ∨
      (¬ isName (withoutBlanks group) = true ∧ ∃ ref, .ref ref ∈ items ∧ ofDocument path after.document
        = .error (.typeReference group (.malformed (aliasName group ref.mangle))))) := by
  obtain ⟨refs, hrefs, rfl, rfl⟩ := exists_refs_of_synthesize h
  obtain ⟨htakes, htaken⟩ := (Synthesis.closedRefs_eq_ok_iff hitems).mp hrefs
  have hspellable := Synthesis.spellable_of_closedRefs hrefs hitems
  have hnil : refs = [] ↔ items = [] := htaken.eq_nil_iff htakes
  by_cases hgroup : items = [] ∨ isName group = true
  · have hread := ofDocument_of_isName hm hspellable (hgroup.imp_left hnil.mpr) path
    have hholds : (m.withRead path group (groupTypes m.name group refs).1 (groupTypes m.name group refs).2).HoldsGroup
        (groupTypes m.name group refs).1 items :=
      holdsGroup_of_oneEach htaken (Synthesis.oneEach_groupTypes m.name group refs) fun made hmade =>
        List.mem_append_right _ hmade
    refine ⟨iff_of_true ⟨_, hread, hholds⟩ hgroup, fun _ => hread, fun hitem hname => ?_⟩
    exact (hgroup.elim hitem hname).elim
  · obtain ⟨hitem, hname⟩ := not_or.mp hgroup
    obtain ⟨ref, rest, rfl⟩ := List.exists_cons_of_ne_nil fun hrefs => hitem (hnil.mp hrefs)
    have hread := @ofDocument_of_not_isName m group ref rest hm hspellable path
    by_cases hleft : isName (withoutBlanks group) = true
    · -- the fields are read with another name than the members have
      rw [if_pos hleft] at hread
      have hnamed : withoutBlanks group ≠ group := fun heq => hname (heq ▸ hleft)
      refine ⟨iff_of_false ?_ hgroup, fun h => absurd h hgroup, fun _ _ => .inl ⟨hleft, _, _, rfl, hread⟩⟩
      rintro ⟨read, hok, hholds⟩
      obtain rfl := Except.ok.inj (hread.symm.trans hok)
      exact not_holdsGroup_withRead hnamed rfl hholds
    · rw [if_neg hleft] at hread
      have hmem := (htaken.mem_iff ref).mp List.mem_cons_self
      refine ⟨iff_of_false ?_ hgroup, fun h => absurd h hgroup, fun _ _ => .inr ⟨hleft, ref, hmem, hread⟩⟩
      rintro ⟨read, hok, -⟩
      exact nomatch hread.symm.trans hok

/-! ## Names of groups

A group whose name is a name of the grammar, and one whose name begins with a digit. -/

namespace NamedGroup

def job : TypeRef := ⟨"Demo.Job", [.named "Core.Int32" []]⟩

theorem named_job : Named [.ref job] := by
  intro ref href
  obtain rfl := Instantiation.ref.inj (List.mem_singleton.mp href)
  exact ⟨by decide, ⟨by decide, trivial⟩, trivial⟩

theorem closedRefs_job : closedRefs none [.ref job] = .ok [job] := Synthesis.closedRefs_singleton rfl

/-- The sample with a group for one job. -/
def grouped (group : String) : Module := (Sample.demo.outside group).addTypes (newTypes "Demo" group [job])

theorem synthesize_demo (hgroup : group ≠ "") : Sample.demo.synthesize none group [.ref job]
    = .ok ((groupTypes "Demo" group [job]).1, grouped group) :=
  synthesize_eq_ok hgroup closedRefs_job

/-- **The group of a good name** is read back. -/
theorem jobs_read_back : Sample.demo.Writable ∧ Named [.ref job] ∧
    Sample.demo.synthesize none "Jobs" [.ref job] = .ok ((groupTypes "Demo" "Jobs" [job]).1, grouped "Jobs") ∧
    ∃ read, ofDocument none (grouped "Jobs").document = .ok read ∧
      read.HoldsGroup (groupTypes "Demo" "Jobs" [job]).1 [.ref job] := by
  have hmade := synthesize_demo (by decide : "Jobs" ≠ "")
  exact ⟨Sample.writable_demo, named_job, hmade,
    (group_read_back Sample.writable_demo named_job hmade none).1.mpr (.inr (by decide))⟩

/-- **The group of a bad name is accepted**, and the document that is written with it cannot be read. -/
theorem numbered_lost : Sample.demo.Writable ∧ Named [.ref job] ∧ job.isOpen = false ∧
    Sample.demo.synthesize none "1Jobs" [.ref job] = .ok ((groupTypes "Demo" "1Jobs" [job]).1, grouped "1Jobs") ∧
    ofDocument none (grouped "1Jobs").document
      = .error (.typeReference "1Jobs" (.malformed "1Jobs/Demo_Job_Core_Int32")) := by
  refine ⟨Sample.writable_demo, named_job, rfl, synthesize_demo (by decide), ?_⟩
  have hspellable := Synthesis.spellable_of_closedRefs closedRefs_job named_job
  have hread := @ofDocument_of_not_isName Sample.demo "1Jobs" job [] Sample.writable_demo hspellable none
  have hname : ¬ isName (withoutBlanks "1Jobs") = true := by decide
  have hmangled : aliasName "1Jobs" job.mangle = "1Jobs/Demo_Job_Core_Int32" := by decide
  rw [if_neg hname, hmangled] at hread
  exact hread

end NamedGroup

end Module

end JobClosure
