import JobClosure.Proofs.Instantiation.Union
import JobClosure.Proofs.Synthesis

/-!
# What is taken into a group

Every item is looked at, in the order in which the items are given, and the first one that is refused refuses
them all (`Synthesis.closedRefs_cases`). Otherwise each spelling is taken once, in ascending order. Spellings of
closed references tell them apart if they are made of names of the grammar, so what is taken is the set of the
references that were given (`Synthesis.Taken`), and it is determined by that set (`Synthesis.Taken.eq`).
-/

namespace JobClosure

namespace Synthesis

variable {index : Option Index} {items items' : List Instantiation} {refs refs' : List TypeRef}

theorem closedRef_eq_ok_iff {item : Instantiation} {ref : TypeRef} :
    closedRef index item = .ok ref ↔ item = .ref ref ∧ ref.isOpen = false ∧ checkTemplate index ref = .ok () := by
  cases item with
  | other value => simp [closedRef]
  | parameter p => simp [closedRef]
  | ref given =>
    rw [closedRef, Instantiation.ref.injEq]
    cases hopen : given.isOpen with
    | true =>
      refine iff_of_false (by simp) ?_
      rintro ⟨rfl, hclosed, -⟩
      exact absurd (hopen.symm.trans hclosed) (by decide)
    | false =>
      rw [if_neg Bool.false_ne_true]
      constructor
      · intro h
        obtain ⟨⟨⟩, hcheck, h⟩ := bind_eq_ok h
        obtain rfl := Except.ok.inj h
        exact ⟨rfl, hopen, hcheck⟩
      · rintro ⟨rfl, -, hcheck⟩
        rw [hcheck]
        rfl

/-! ## Items one by one -/

/-- An item that can be taken into a group. -/
def Takes (index : Option Index) (item : Instantiation) : Prop := ∃ ref, closedRef index item = .ok ref

/-- The fault of the first item that is refused. -/
def FirstFault (index : Option Index) (items : List Instantiation) (fault : SynthesisFault) : Prop :=
  ∃ before item after, items = before ++ item :: after ∧ (∀ other ∈ before, Takes index other) ∧
    closedRef index item = .error fault

theorem FirstFault.not_forall_takes {fault : SynthesisFault} (h : FirstFault index items fault) :
    ¬ ∀ item ∈ items, Takes index item := by
  obtain ⟨before, item, after, rfl, -, hfault⟩ := h
  intro hall
  obtain ⟨ref, href⟩ := hall item (List.mem_append_right _ List.mem_cons_self)
  exact nomatch href.symm.trans hfault

theorem mapM_closedRef_spec (index : Option Index) (items : List Instantiation) :
    ((∀ item ∈ items, Takes index item) ∧
      ∃ refs, items.mapM (closedRef index) = .ok refs ∧ ∀ ref, ref ∈ refs ↔ .ref ref ∈ items) ∨
    ∃ fault, FirstFault index items fault ∧ items.mapM (closedRef index) = .error fault := by
  induction items with
  | nil => exact .inl ⟨nofun, [], rfl, fun ref => by simp⟩
  | cons item rest ih =>
    rw [List.mapM_cons]
    cases hitem : closedRef index item with
    | error fault => exact .inr ⟨fault, ⟨[], item, rest, rfl, nofun, hitem⟩, rfl⟩
    | ok first =>
      have htakes : Takes index item := ⟨first, hitem⟩
      obtain ⟨rfl, -⟩ := closedRef_eq_ok_iff.mp hitem
      -- the first item is taken, so the others decide
      rcases ih with ⟨hall, refs, hrefs, hmem⟩ | ⟨fault, ⟨before, other, after, rfl, hbefore, hother⟩, hfault⟩
      · rw [hrefs]
        refine .inl ⟨List.forall_mem_cons.mpr ⟨htakes, hall⟩, first :: refs, rfl, fun ref => ?_⟩
        rw [List.mem_cons, List.mem_cons, hmem, Instantiation.ref.injEq]
      · rw [hfault]
        refine .inr ⟨fault, ⟨.ref first :: before, other, after, rfl, ?_, hother⟩, rfl⟩
        exact List.forall_mem_cons.mpr ⟨htakes, hbefore⟩

/-! ## The set of references -/

/-- Closed references in ascending order of their spellings, each spelling once, that are the ones given. -/
structure Taken (items : List Instantiation) (refs : List TypeRef) : Prop where
  ascending : refs.Pairwise fun a b => a.spell < b.spell
  mem_iff : ∀ ref, ref ∈ refs ↔ .ref ref ∈ items

theorem Taken.nodup_spell (h : Taken items refs) : (refs.map TypeRef.spell).Nodup :=
  List.pairwise_map.mpr (h.ascending.imp fun hlt => String.ne_of_lt hlt)

/-- **The set of references determines what is taken.** -/
theorem Taken.eq (h : Taken items refs) (h' : Taken items' refs')
    (hset : ∀ ref, Instantiation.ref ref ∈ items ↔ .ref ref ∈ items') : refs = refs' := by
  have hmem : ∀ ref, ref ∈ refs ↔ ref ∈ refs' := fun ref =>
    (h.mem_iff ref).trans ((hset ref).trans (h'.mem_iff ref).symm)
  refine Resolver.eq_of_mem_iff h.nodup_spell.of_map h'.nodup_spell.of_map ?_ ?_ ?_ hmem
  · exact h.ascending.imp fun hlt => Std.le_of_lt hlt
  · exact h'.ascending.imp fun hlt => Std.le_of_lt hlt
  · exact fun a ha b hb => List.inj_on_of_nodup_map h.nodup_spell ha hb

/-- Something is taken unless nothing was given. -/
theorem Taken.eq_nil_iff (h : Taken items refs) (htakes : ∀ item ∈ items, Takes index item) :
    refs = [] ↔ items = [] := by
  constructor
  · rintro rfl
    refine List.eq_nil_iff_forall_not_mem.mpr fun item hitem => ?_
    obtain ⟨ref, href⟩ := htakes item hitem
    obtain ⟨rfl, -⟩ := closedRef_eq_ok_iff.mp href
    exact absurd ((h.mem_iff ref).mpr hitem) List.not_mem_nil
  · rintro rfl
    exact List.eq_nil_iff_forall_not_mem.mpr fun ref href => absurd ((h.mem_iff ref).mp href) List.not_mem_nil

/-- The references among the items are made of names of the grammar. -/
def Named (items : List Instantiation) : Prop := ∀ ref, .ref ref ∈ items → ref.toArg.Grammatical

/-- Spellings are taken in ascending order, each of them once. -/
theorem pairwise_closedRefs (h : closedRefs index items = .ok refs) :
    refs.Pairwise fun a b => a.spell < b.spell := by
  obtain ⟨found, -, h⟩ := bind_eq_ok h
  obtain rfl := Except.ok.inj h
  have hnodup : ((Resolver.sortBySpelling (distinctBy TypeRef.spell found)).map TypeRef.spell).Nodup :=
    ((List.mergeSort_perm _ _).map TypeRef.spell).nodup_iff.mpr (nodup_map_distinctBy TypeRef.spell found)
  refine ((Resolver.pairwise_sortBySpelling _).and (List.pairwise_map.mp hnodup)).imp ?_
  rintro a b ⟨hle, hne⟩
  exact Std.lt_of_le_of_ne hle hne

/-- Items are refused for the first of them that is. -/
theorem firstFault_of_closedRefs {fault : SynthesisFault} (h : closedRefs index items = .error fault) :
    FirstFault index items fault := by
  rcases mapM_closedRef_spec index items with ⟨-, found, hfound, -⟩ | ⟨other, hfirst, hother⟩
  · rw [closedRefs, hfound] at h
    cases h
  · rw [closedRefs, hother] at h
    obtain rfl := Except.error.inj h
    exact hfirst

/-- **The items are taken or refused**: refused for the first of them that is, taken as a set of references. -/
theorem closedRefs_cases (index : Option Index) (hitems : Named items) :
    ((∀ item ∈ items, Takes index item) ∧ ∃ refs, closedRefs index items = .ok refs ∧ Taken items refs) ∨
    ∃ fault, FirstFault index items fault ∧ closedRefs index items = .error fault := by
  rcases mapM_closedRef_spec index items with ⟨hall, found, hfound, hmem⟩ | ⟨fault, hfirst, hfault⟩
  · have hrefs : closedRefs index items = .ok (Resolver.sortBySpelling (distinctBy TypeRef.spell found)) := by
      rw [closedRefs, hfound]
      rfl
    refine .inl ⟨hall, _, hrefs, pairwise_closedRefs hrefs, fun ref => ?_⟩
    rw [Resolver.mem_sortBySpelling, ← hmem]
    refine ⟨mem_of_mem_distinctBy, fun href => ?_⟩
    -- what is kept of its spelling is the reference itself
    obtain ⟨kept, hkept, hspell⟩ : ∃ kept ∈ distinctBy TypeRef.spell found, kept.spell = ref.spell :=
      exists_mem_distinctBy href
    have hclosed : ∀ ref ∈ found, ref.toArg.isOpen = false := by
      intro ref href
      obtain ⟨given, hgiven⟩ := hall _ ((hmem ref).mp href)
      obtain ⟨heq, hgiven, -⟩ := closedRef_eq_ok_iff.mp hgiven
      obtain rfl := Instantiation.ref.inj heq
      exact hgiven
    have hmemKept := mem_of_mem_distinctBy hkept
    have hsame : kept = ref := TypeRef.toArg_injective
      (TypeArg.eq_of_spell_eq (hitems kept ((hmem kept).mp hmemKept)) (hitems ref ((hmem ref).mp href))
        (hclosed kept hmemKept) (hclosed ref href) hspell)
    exact hsame ▸ hkept
  · refine .inr ⟨fault, hfirst, ?_⟩
    rw [closedRefs, hfault]
    rfl

/-- **What is taken** is the set of the references given, if each of them can be taken. -/
theorem closedRefs_eq_ok_iff (hitems : Named items) :
    closedRefs index items = .ok refs ↔ (∀ item ∈ items, Takes index item) ∧ Taken items refs := by
  rcases closedRefs_cases index hitems with ⟨hall, found, hfound, htaken⟩ | ⟨fault, hfirst, hfault⟩
  · rw [hfound, Except.ok.injEq]
    constructor
    · rintro rfl
      exact ⟨hall, htaken⟩
    · exact fun h => htaken.eq h.2 fun _ => Iff.rfl
  · rw [hfault]
    exact iff_of_false nofun fun h => hfirst.not_forall_takes h.1

end Synthesis

end JobClosure
