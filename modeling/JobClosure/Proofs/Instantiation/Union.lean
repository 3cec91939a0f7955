import JobClosure.Instantiation.Survey
import JobClosure.Proofs.Instantiation.Spelling

/-!
# The instantiations of several call references

Resolving a list of call references puts together what its members come to and sorts it by spelling
(`Resolver.resolve_answers`). Where no two members are spelled the same, the list is determined by its
members (`Resolver.eq_of_mem_iff`); that is so for everything that a scan finds
(`ScanResult.spell_injOn`).
-/

namespace JobClosure

namespace Resolver

/-- A closed target that the walk of a call reference comes to. -/
def Reaches (r : Resolver) (call : CallReference) (ref : TypeRef) : Prop :=
  ∃ s, Walk.Pops r.graph call s ∧ s.target.closed? = some ref

theorem cancellation_resolveCall (r : Resolver) (call : CallReference) :
    (r.resolveCall .never call).cancellation = .never := by
  obtain ⟨n, hn, -⟩ := Walk.exists_endsAt r.graph call
  unfold resolveCall
  rw [hn.run_never]

theorem collect_answers (r : Resolver) {found : List TypeRef} (hfound : found.Nodup) (calls : List CallReference) :
    ∃ refs, (r.collect .never found calls).result = .ok refs ∧ refs.Nodup
      ∧ ∀ ref, ref ∈ refs ↔ ref ∈ found ∨ ∃ call ∈ calls, r.Reaches call ref := by
  induction calls generalizing found with
  | nil => exact ⟨found, rfl, hfound, fun ref => by simp⟩
  | cons call rest ih =>
    obtain ⟨first, hfirst, -, hmem⟩ := r.resolveCall_answers call
    have hnext : ((first.foldl (addDistinct id) found).map id).Nodup := by
      refine nodup_map_foldl_addDistinct ?_
      rwa [List.map_id]
    rw [List.map_id] at hnext
    obtain ⟨refs, hrefs, hnodup, hiff⟩ := ih hnext
    refine ⟨refs, ?_, hnodup, fun ref => ?_⟩
    · rw [collect, cancellation_resolveCall, hfirst]
      exact hrefs
    · have hadd : ref ∈ first.foldl (addDistinct id) found ↔ ref ∈ found ∨ ref ∈ first :=
        ⟨mem_foldl_addDistinct, fun h => h.elim subset_foldl_addDistinct mem_foldl_addDistinct_id⟩
      rw [hiff, hadd, hmem, List.exists_mem_cons_iff, or_assoc]
      rfl

/-- Resolving leaves work that is never cancelled as it is. -/
theorem cancellation_collect (r : Resolver) (found : List TypeRef) (calls : List CallReference) :
    (r.collect .never found calls).cancellation = .never := by
  induction calls generalizing found with
  | nil => rfl
  | cons call rest ih =>
    obtain ⟨first, hfirst, -⟩ := r.resolveCall_answers call
    rw [collect, cancellation_resolveCall, hfirst]
    exact ih _

theorem cancellation_resolve (r : Resolver) (calls : List CallReference) :
    (r.resolve .never calls).cancellation = .never :=
  r.cancellation_collect [] calls

/-- **What resolving a list of call references answers**: the closed targets of all of them, each once and
in the order of their spellings. -/
theorem resolve_answers (r : Resolver) (calls : List CallReference) :
    ∃ refs, (r.resolve .never calls).result = .ok refs ∧ refs.Nodup
      ∧ refs.Pairwise (fun a b => a.spell ≤ b.spell)
      ∧ ∀ ref, ref ∈ refs ↔ ∃ call ∈ calls, r.Reaches call ref := by
  obtain ⟨refs, hrefs, hnodup, hmem⟩ := r.collect_answers List.nodup_nil calls
  refine ⟨sortBySpelling refs, ?_, (List.mergeSort_perm refs _).nodup_iff.mpr hnodup, ?_, fun ref => ?_⟩
  · unfold resolve
    dsimp only
    rw [hrefs]
    rfl
  · exact pairwise_sortBySpelling refs
  · rw [mem_sortBySpelling, hmem]
    simp

theorem collect_of_comesTo {r : Resolver} {calls : List CallReference} {founds : List (List TypeRef)}
    (h : List.Forall₂ (Walk.ComesTo r.graph) calls founds) (found : List TypeRef) :
    (r.collect .never found calls).result = .ok ((founds.flatMap sortBySpelling).foldl (addDistinct id) found) := by
  induction h generalizing found with
  | nil => rfl
  | cons hcall _ ih =>
    rw [collect, cancellation_resolveCall, result_of_comesTo hcall, List.flatMap_cons, List.foldl_append]
    exact ih _

/-- **Call references whose walks are known** come to what the walks have found, put together. -/
theorem resolve_of_comesTo {r : Resolver} {calls : List CallReference} {founds : List (List TypeRef)}
    (h : List.Forall₂ (Walk.ComesTo r.graph) calls founds) :
    (r.resolve .never calls).result = .ok (sortBySpelling (distinctBy id (founds.flatMap sortBySpelling))) := by
  unfold resolve
  dsimp only
  rw [collect_of_comesTo h]
  rfl

/-- Call references that come to one target each. -/
theorem resolve_of_single_targets {r : Resolver} {calls : List CallReference} {refs : List TypeRef}
    (h : List.Forall₂ (fun call ref => Walk.ComesTo r.graph call [ref]) calls refs) :
    (r.resolve .never calls).result = .ok (sortBySpelling (distinctBy id refs)) := by
  have hfounds : List.Forall₂ (Walk.ComesTo r.graph) calls (refs.map fun ref => [ref]) :=
    List.forall₂_map_right_iff.mpr h
  have hsorted : (refs.map fun ref => [ref]).flatMap sortBySpelling = refs := by
    simp only [List.flatMap_map, sortBySpelling_singleton, List.flatMap_singleton']
  rw [resolve_of_comesTo hfounds, hsorted]

/-- Lists that are sorted by spelling and have the same members are the same list, unless two members are
spelled alike. -/
theorem eq_of_mem_iff {refs refs' : List TypeRef} (hnodup : refs.Nodup) (hnodup' : refs'.Nodup)
    (hsorted : refs.Pairwise (fun a b => a.spell ≤ b.spell))
    (hsorted' : refs'.Pairwise (fun a b => a.spell ≤ b.spell))
    (hspell : ∀ a ∈ refs, ∀ b ∈ refs, a.spell = b.spell → a = b)
    (hmem : ∀ ref, ref ∈ refs ↔ ref ∈ refs') : refs = refs' := by
  have hperm : refs.Perm refs' := (List.perm_ext_iff_of_nodup hnodup hnodup').mpr hmem
  refine hperm.eq_of_pairwise (fun a b ha hb hab hba => ?_) hsorted hsorted'
  exact hspell a ha b ((hmem b).mpr hb) (String.le_antisymm hab hba)

end Resolver

theorem CallGraph.Route.isOpen_eq_false {graph : CallGraph} {n : Node} {keys : List WalkKey} {ref : TypeRef}
    (h : graph.Route n keys ref) : ref.toArg.isOpen = false := by
  induction h with
  | closed hend =>
    obtain ⟨hclosed, heq⟩ := TypeArg.closed?_eq_some_iff.mp hend
    exact heq ▸ hclosed
  | step _ _ ih => exact ih

theorem instantiations_of_survey {marker : String} {modules : List Module} {found : ScanResult}
    (h : survey marker modules = .ok found) : instantiations marker modules
      = ((⟨Index.ofModules modules, found.graph⟩ : Resolver).resolve .never found.calls).result := by
  rw [instantiations, h]
  rfl

/-- Modules whose call references come to one target each. -/
theorem instantiations_of_single_targets {marker : String} {modules : List Module} {found : ScanResult}
    {refs : List TypeRef} (hsurvey : survey marker modules = .ok found)
    (h : List.Forall₂ (fun call ref => Walk.ComesTo found.graph call [ref]) found.calls refs) :
    instantiations marker modules = .ok (Resolver.sortBySpelling (distinctBy id refs)) :=
  (instantiations_of_survey hsurvey).trans (Resolver.resolve_of_single_targets h)

namespace ScanResult

/-- **No two targets that a scan leads to are spelled alike.** -/
theorem Grammatical.spell_injOn {found : ScanResult} (h : found.Grammatical) {call call' : CallReference}
    (hcall : call ∈ found.calls) (hcall' : call' ∈ found.calls) {keys keys' : List WalkKey} {a b : TypeRef}
    (ha : found.graph.Route call.node keys a) (hb : found.graph.Route call'.node keys' b)
    (hspell : a.spell = b.spell) : a = b := by
  have hagrammatical := h.of_route ha (h.calls call hcall)
  have hbgrammatical := h.of_route hb (h.calls call' hcall')
  exact TypeRef.toArg_injective
    (TypeArg.eq_of_spell_eq hagrammatical hbgrammatical ha.isOpen_eq_false hb.isOpen_eq_false hspell)

end ScanResult

end JobClosure
