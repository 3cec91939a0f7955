import JobClosure.Proofs.Metadata.Mirror
import JobClosure.Proofs.TypeRef.Mangling
import JobClosure.Proofs.TypeRef.Substitution

/-!
# What synthesis puts into a module

A synthesised group takes the place of an earlier one and leaves all other types alone
(`Module.kept_synthesize`). Its own types can be stored whenever the name of the group is a name of the
spelling grammar and the instantiations are spelled with such names: the members are called after mangled
spellings, so their full names are names of the grammar too. Then a module can be stored after synthesis
if what is kept of it could be stored before (`Module.storable_synthesize`).
-/

namespace JobClosure

open Spelling (isNameChar isName)

/-! ## Names of members -/

namespace Synthesis

variable {group module : String} {index : Option Index} {items : List Instantiation} {refs : List TypeRef}

/-- One item comes to one reference. -/
theorem closedRefs_singleton {item : Instantiation} {ref : TypeRef} (h : closedRef index item = .ok ref) :
    closedRefs index [item] = .ok [ref] := by
  rw [closedRefs, List.mapM_cons, h]
  exact congrArg Except.ok (List.mergeSort_singleton ref)

/-- What is taken into a group is one of the instantiations, and closed. -/
theorem mem_closedRefs (h : closedRefs index items = .ok refs) :
    ∀ ref ∈ refs, .ref ref ∈ items ∧ ref.isOpen = false := by
  obtain ⟨found, hfound, h⟩ := bind_eq_ok h
  obtain rfl := Except.ok.inj h
  intro ref href
  obtain ⟨item, hitem, hclosed⟩ := exists_mem_of_mem_mapM hfound ref
    (mem_of_mem_distinctBy (List.mem_mergeSort.mp href))
  unfold closedRef at hclosed
  split at hclosed
  · exact nomatch hclosed
  · exact nomatch hclosed
  · rename_i found
    split at hclosed
    · exact nomatch hclosed
    · rename_i hopen
      obtain ⟨-, -, hclosed⟩ := bind_eq_ok hclosed
      obtain rfl := Except.ok.inj hclosed
      exact ⟨hitem, by simpa using hopen⟩

/-- What is taken can be spelled if it is made of names of the grammar. -/
theorem spellable_of_closedRefs (h : closedRefs index items = .ok refs)
    (hitems : ∀ ref, .ref ref ∈ items → ref.toArg.Grammatical) :
    ∀ ref ∈ refs, ref.toArg.Spellable ∧ ref.isOpen = false := by
  intro ref href
  obtain ⟨hitem, hclosed⟩ := mem_closedRefs h ref href
  refine ⟨(TypeArg.spellable_iff ref.toArg).mpr ⟨hitems ref hitem, fun p hp => ?_⟩, hclosed⟩
  -- a closed reference has no parameters
  rw [(TypeArg.isOpen_eq_false_iff ref.toArg).mp hclosed] at hp
  exact absurd hp List.not_mem_nil

theorem freshName_mem (used : List String) (base : String) : freshName used base ∈ candidateNames base used.length := by
  unfold freshName
  cases hfind : (candidateNames base used.length).find? fun name => !used.contains name with
  | none => exact List.mem_cons_self
  | some name => exact List.mem_of_find?_eq_some hfind

/-- A name that is made different still has characters of names only. -/
theorem isNameChar_of_mem_freshName {used : List String} {base : String}
    (h : ∀ c ∈ base.toList, isNameChar c = true) : ∀ c ∈ (freshName used base).toList, isNameChar c = true := by
  rcases List.mem_cons.mp (freshName_mem used base) with heq | hmem
  · rw [heq]
    exact h
  · obtain ⟨n, -, heq⟩ := List.mem_map.mp hmem
    have hdigit : ∀ c ∈ Nat.toDigits 10 (n + 2), isNameChar c = true := by
      intro c hc
      have := Numeral.isDigit_of_mem_toDigits hc
      simp [isNameChar, Spelling.isWordChar, Char.isAlphanum, this]
    have hname : (freshName used base).toList = base.toList ++ '_' :: Nat.toDigits 10 (n + 2) := by
      rw [← heq]
      simp [toString]
    rw [hname, List.forall_mem_append, List.forall_mem_cons]
    exact ⟨h, by decide, hdigit⟩

theorem isNameChar_of_mem_memberNames {used : List String} (h : ∀ ref ∈ refs, ref.toArg.Spellable) :
    ∀ member ∈ memberNames used refs, ∀ c ∈ member.toList, isNameChar c = true := by
  induction refs generalizing used with
  | nil => exact fun member hmember => absurd hmember List.not_mem_nil
  | cons ref rest ih =>
    obtain ⟨href, hrest⟩ := List.forall_mem_cons.mp h
    rw [memberNames, List.forall_mem_cons]
    exact ⟨isNameChar_of_mem_freshName (isNameChar_of_mem_mangle href), ih hrest⟩

theorem isName_aliasName {member : String} (hgroup : isName group = true)
    (hmember : ∀ c ∈ member.toList, isNameChar c = true) : isName (aliasName group member) = true := by
  refine Spelling.isName_append (Spelling.isName_append hgroup (by decide)) ?_
  rw [List.all_eq_true]
  exact hmember

/-! ## The types of a group -/

/-- The types of a group: the group itself, then the aliases. -/
def newTypes (module group : String) (refs : List TypeRef) : List TypeDef :=
  (groupTypes module group refs).1 :: (groupTypes module group refs).2

/-- The aliases go with the references and the names of their members. -/
theorem aliases_groupTypes (module group : String) (refs : List TypeRef) :
    (groupTypes module group refs).2
      = (refs.zip (memberNames [] refs)).map fun pair => aliasType module group pair.1 pair.2 :=
  (List.map_uncurry_zip_eq_zipWith).symm

theorem mem_newTypes {type : TypeDef} (h : type ∈ newTypes module group refs) :
    type = groupType module group (memberNames [] refs) ∨
      ∃ ref ∈ refs, ∃ member ∈ memberNames [] refs, type = aliasType module group ref member := by
  rcases List.mem_cons.mp h with rfl | h
  · exact .inl rfl
  · rw [aliases_groupTypes] at h
    obtain ⟨⟨ref, member⟩, hpair, rfl⟩ := List.mem_map.mp h
    obtain ⟨href, hmember⟩ := List.of_mem_zip hpair
    exact .inr ⟨ref, href, member, hmember, rfl⟩

/-- Every type of a group belongs to it. -/
theorem inGroup_of_mem_newTypes {type : TypeDef} (h : type ∈ newTypes module group refs) :
    inGroup group type = true := by
  rcases mem_newTypes h with rfl | ⟨ref, -, member, -, rfl⟩
  · simp [inGroup, groupType]
  · simp [inGroup, aliasType, aliasName, String.toList_append]

theorem methods_of_mem_newTypes {type : TypeDef} (h : type ∈ newTypes module group refs) : type.methods = [] := by
  rcases mem_newTypes h with rfl | ⟨ref, -, member, -, rfl⟩
  · rfl
  · rfl

/-- An alias can be spelled whatever the group is called. -/
theorem spelled_aliasType (module group member : String) {ref : TypeRef}
    (h : ref.toArg.Spellable ∧ ref.isOpen = false) : (aliasType module group ref member).Spelled module := by
  refine ⟨rfl, fun found hfound => ?_, fun _ hmem => absurd hmem List.not_mem_nil⟩
  obtain rfl : found = ref := by simpa [TypeDef.refs, aliasType] using hfound
  obtain ⟨hspellable, hclosed⟩ := h
  have hnone := (TypeArg.isOpen_eq_false_iff found.toArg).mp hclosed
  refine ⟨hspellable, fun p hp => ?_⟩
  rw [hnone] at hp
  exact absurd hp List.not_mem_nil

/-- **The types of a group can be spelled** if the group and the instantiations can. -/
theorem spelled_of_mem_newTypes (hgroup : isName group = true)
    (hrefs : ∀ ref ∈ refs, ref.toArg.Spellable ∧ ref.isOpen = false) {type : TypeDef}
    (h : type ∈ newTypes module group refs) : type.Spelled module := by
  have hmethods := methods_of_mem_newTypes h
  have hmembers : ∀ member ∈ memberNames [] refs, ∀ c ∈ member.toList, isNameChar c = true :=
    isNameChar_of_mem_memberNames fun ref href => (hrefs ref href).1
  rcases mem_newTypes h with rfl | ⟨ref, href, member, -, rfl⟩
  · refine ⟨rfl, fun ref href => ?_, by rw [hmethods]; exact fun _ hmem => absurd hmem List.not_mem_nil⟩
    obtain ⟨declared, hdeclared, rfl⟩ := List.mem_map.mp href
    obtain ⟨member, hmember, rfl⟩ := List.mem_map.mp hdeclared
    exact ⟨⟨isName_aliasName hgroup (hmembers member hmember), trivial⟩, fun p hp => absurd hp List.not_mem_nil⟩
  · exact spelled_aliasType module group member (hrefs ref href)

theorem toForm_groupType (module group : String) (members : List String) : (groupType module group members).toForm
    = .list (.symbol "type" :: .text group :: (members.map (aliasField group)).map Field.toForm) := by
  simp [TypeDef.toForm, groupType, textClauseIfAny]

theorem toForm_aliasType (module group : String) (ref : TypeRef) (member : String) :
    (aliasType module group ref member).toForm
      = .list [.symbol "type", .text (aliasName group member), textClause "base" [ref.spell]] := by
  simp [TypeDef.toForm, aliasType, textClauseIfAny]

/-- No name breaks a line. -/
theorem not_mem_return_of_isName {name : String} (h : isName name = true) : '\r' ∉ name.toList :=
  fun hmem => absurd (isNameChar_of_mem_name h '\r' hmem) (by decide)

theorem holds_textClause {head : String} {operands : List String} {c : Char}
    (h : (textClause head operands).Holds c) : c ∈ head.toList ∨ ∃ operand ∈ operands, c ∈ operand.toList := by
  rcases h with h | h
  · exact .inl h
  · obtain ⟨form, hform, hc⟩ := Form.holdsAny_iff.mp h
    obtain ⟨operand, hoperand, rfl⟩ := List.mem_map.mp hform
    exact .inr ⟨operand, hoperand, hc⟩

/-- The types of a group are written without carriage returns. -/
theorem not_holds_return_of_mem_newTypes (hgroup : isName group = true)
    (hrefs : ∀ ref ∈ refs, ref.toArg.Spellable ∧ ref.isOpen = false) {type : TypeDef}
    (h : type ∈ newTypes module group refs) : ¬ type.toForm.Holds '\r' := by
  have hmembers : ∀ member ∈ memberNames [] refs, isName (aliasName group member) = true := fun member hmember =>
    isName_aliasName hgroup (isNameChar_of_mem_memberNames (fun ref href => (hrefs ref href).1) member hmember)
  have hhead : '\r' ∉ "type".toList := by decide
  intro hholds
  -- what is written of a group are names made of its own name and of mangled spellings, and the spellings
  rcases mem_newTypes h with rfl | ⟨ref, href, member, hmember, rfl⟩
  · rw [toForm_groupType] at hholds
    rcases hholds with hholds | hholds | hholds
    · exact hhead hholds
    · exact not_mem_return_of_isName hgroup hholds
    · obtain ⟨form, hform, hc⟩ := Form.holdsAny_iff.mp hholds
      obtain ⟨declared, hdeclared, rfl⟩ := List.mem_map.mp hform
      obtain ⟨member, hmember, rfl⟩ := List.mem_map.mp hdeclared
      have hname := not_mem_return_of_isName (hmembers member hmember)
      rcases holds_textClause hc with hc | ⟨operand, hoperand, hc⟩
      · exact absurd hc (by decide)
      · rcases List.mem_cons.mp hoperand with rfl | hoperand
        · refine hname ?_
          have hc : '\r' ∈ "_instance_".toList ++ member.toList := by rwa [← String.toList_append]
          rw [aliasName, String.toList_append]
          exact List.mem_append_right _ ((List.mem_append.mp hc).resolve_left (by decide))
        · rw [List.mem_singleton.mp hoperand] at hc
          exact hname hc
  · rw [toForm_aliasType] at hholds
    rcases hholds with hholds | hholds | hholds | hholds
    · exact hhead hholds
    · exact not_mem_return_of_isName (hmembers member hmember) hholds
    · rcases holds_textClause hholds with hc | ⟨operand, hoperand, hc⟩
      · exact absurd hc (by decide)
      · rw [List.mem_singleton.mp hoperand] at hc
        exact (spellingText_spell ref.toArg (hrefs ref href).1).not_mem_return hc
    · exact hholds

end Synthesis

/-! ## Modules -/

namespace Module

open Synthesis (closedRefs groupTypes inGroup newTypes mem_closedRefs)

variable {m after : Module} {index : Option Index} {group : String} {items : List Instantiation} {type : TypeDef}

/-- A group of closed types comes after everything that is outside it. -/
theorem exists_refs_of_synthesize (h : m.synthesize index group items = .ok (type, after)) :
    ∃ refs, closedRefs index items = .ok refs ∧ type = (groupTypes m.name group refs).1 ∧
      after = (m.outside group).addTypes (newTypes m.name group refs) := by
  unfold synthesize at h
  split at h
  · exact nomatch h
  · split at h
    · exact nomatch h
    · rename_i refs hrefs
      obtain ⟨rfl, rfl⟩ := Prod.mk.inj (Except.ok.inj h)
      exact ⟨refs, hrefs, rfl, rfl⟩

/-- A group of any name can be put into a module if the references are closed. -/
theorem synthesize_eq_ok {refs : List TypeRef} (hgroup : group ≠ "") (hrefs : closedRefs index items = .ok refs) :
    m.synthesize index group items
      = .ok ((groupTypes m.name group refs).1, (m.outside group).addTypes (newTypes m.name group refs)) := by
  rw [synthesize, if_neg fun hempty => hgroup (String.isEmpty_iff.mp hempty), hrefs]
  rfl

/-- A group can be put into a module whenever the references are closed. -/
theorem synthesize_of_closedRefs {refs : List TypeRef} (hgroup : isName group = true)
    (hrefs : closedRefs index items = .ok refs) : m.synthesize index group items
      = .ok ((groupTypes m.name group refs).1, (m.outside group).addTypes (newTypes m.name group refs)) := by
  refine synthesize_eq_ok ?_ hrefs
  rintro rfl
  exact absurd hgroup (by decide)

/-- **Synthesis keeps what is outside the group.** -/
theorem outside_synthesize (h : m.synthesize index group items = .ok (type, after)) :
    after.outside group = m.outside group := by
  obtain ⟨refs, -, -, rfl⟩ := exists_refs_of_synthesize h
  have hnew : (newTypes m.name group refs).filter (fun type => !inGroup group type) = [] := by
    rw [List.filter_eq_nil_iff]
    intro type htype
    simp [Synthesis.inGroup_of_mem_newTypes htype]
  have htypes : ((m.outside group).types ++ newTypes m.name group refs).filter (fun type => !inGroup group type)
      = (m.outside group).types := by
    rw [List.filter_append, hnew, List.append_nil, outside, removeTypes]
    simp
  rw [outside, removeTypes, addTypes]
  dsimp only
  rw [htypes]

/-- **A module can be stored after synthesis** if what is outside the group could be stored before. -/
theorem storable_synthesize (h : m.synthesize index group items = .ok (type, after))
    (hgroup : isName group = true) (hitems : ∀ ref, .ref ref ∈ items → ref.toArg.Grammatical)
    (hstorable : (m.outside group).Storable) : after.Storable := by
  obtain ⟨refs, hrefs, -, rfl⟩ := exists_refs_of_synthesize h
  have hrefs := Synthesis.spellable_of_closedRefs hrefs hitems
  refine ⟨?_, ?_, ?_, hstorable.distinctSymbols, hstorable.countableSymbols, hstorable.noReturnInSymbols⟩
  · intro type htype
    rcases List.mem_append.mp htype with htype | htype
    · exact hstorable.spelled type htype
    · exact Synthesis.spelled_of_mem_newTypes hgroup hrefs htype
  · intro type htype
    rcases List.mem_append.mp htype with htype | htype
    · exact hstorable.bodies type htype
    · rw [Synthesis.methods_of_mem_newTypes htype]
      exact fun method hmethod => absurd hmethod List.not_mem_nil
  · -- a carriage return is in the name, a reference, a type outside the group or a type of the group
    intro hholds
    obtain ⟨form, hform, hc⟩ := Form.holdsAny_iff.mp hholds
    have hold : form ∈ .symbol "module" :: .text m.name ::
        (textClauseIfAny "reference" m.references ++ (m.outside group).types.map TypeDef.toForm) →
          (m.outside group).toForm.Holds '\r' := fun hform => Form.holdsAny_iff.mpr ⟨form, hform, hc⟩
    rcases List.mem_cons.mp hform with rfl | hform
    · have hc : '\r' ∈ "module".toList := hc
      exact absurd hc (by decide)
    · rcases List.mem_cons.mp hform with rfl | hform
      · exact hstorable.noReturn (hold (List.mem_cons_of_mem _ List.mem_cons_self))
      · rcases List.mem_append.mp hform with hform | hform
        · refine hstorable.noReturn (hold ?_)
          exact List.mem_cons_of_mem _ (List.mem_cons_of_mem _ (List.mem_append_left _ hform))
        · obtain ⟨type, htype, rfl⟩ := List.mem_map.mp hform
          rcases List.mem_append.mp htype with htype | htype
          · refine hstorable.noReturn (hold ?_)
            exact List.mem_cons_of_mem _ (List.mem_cons_of_mem _
              (List.mem_append_right _ (List.mem_map_of_mem htype)))
          · exact Synthesis.not_holds_return_of_mem_newTypes hgroup hrefs htype hc

end Module

end JobClosure
