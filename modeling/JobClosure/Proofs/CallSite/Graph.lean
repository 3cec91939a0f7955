import JobClosure.CallSite.Graph
import JobClosure.Proofs.Distinct

/-!
# What a call graph holds

The sites that a graph holds for a method are the sites that it was made of with this method as their
callee, each once and in the order of their first occurrence (`callersOf_ofSites`).
-/

namespace JobClosure

namespace CallGraph

theorem lookup_insertInto_self (site : CallSite) (groups : List (MethodId × List CallSite)) :
    ((insertInto site groups).lookup site.callee).getD []
      = addDistinct id ((groups.lookup site.callee).getD []) site := by
  induction groups with
  | nil =>
    rw [insertInto, List.lookup_cons_self]
    rfl
  | cons group rest ih =>
    obtain ⟨callee, sites⟩ := group
    rw [insertInto]
    by_cases hcallee : callee = site.callee
    · rw [if_pos hcallee, hcallee, List.lookup_cons_self, List.lookup_cons_self]
      rfl
    · rw [if_neg hcallee, List.lookup_cons, List.lookup_cons, beq_false_of_ne (Ne.symm hcallee)]
      exact ih

theorem lookup_insertInto_of_ne {site : CallSite} {m : MethodId} (hm : site.callee ≠ m)
    (groups : List (MethodId × List CallSite)) :
    (insertInto site groups).lookup m = groups.lookup m := by
  induction groups with
  | nil => rw [insertInto, List.lookup_cons, beq_false_of_ne (Ne.symm hm)]
  | cons group rest ih =>
    obtain ⟨callee, sites⟩ := group
    rw [insertInto]
    by_cases hcallee : callee = site.callee
    · have hother : (m == callee) = false := beq_false_of_ne fun h => hm (hcallee.symm.trans h.symm)
      rw [if_pos hcallee, List.lookup_cons, List.lookup_cons, hother]
    · rw [if_neg hcallee, List.lookup_cons, List.lookup_cons, ih]

/-- Adding a site changes what the graph holds for its callee only. -/
theorem callersOf_insert (graph : CallGraph) (site : CallSite) (m : MethodId) :
    (graph.insert site).callersOf m
      = if site.callee = m then addDistinct id (graph.callersOf m) site else graph.callersOf m := by
  unfold callersOf insert
  by_cases hm : site.callee = m
  · subst hm
    rw [if_pos rfl]
    exact lookup_insertInto_self site graph.groups
  · rw [if_neg hm, lookup_insertInto_of_ne hm]

/-- **The callers of a method** are the sites with this callee, without repetitions. -/
theorem callersOf_ofSites (sites : List CallSite) (m : MethodId) :
    (ofSites sites).callersOf m = distinctBy id (sites.filter fun site => site.callee = m) := by
  induction sites using List.reverseRecOn with
  | nil => rfl
  | append_singleton sites site ih =>
    have hinsert : ofSites (sites ++ [site]) = (ofSites sites).insert site := by
      unfold ofSites
      rw [List.foldl_append, List.foldl_cons, List.foldl_nil]
    rw [hinsert, callersOf_insert, ih, List.filter_append]
    by_cases hm : site.callee = m
    · have hlast : [site].filter (fun site => site.callee = m) = [site] := by simp [hm]
      rw [if_pos hm, hlast, distinctBy_concat]
    · have hlast : [site].filter (fun site => site.callee = m) = [] := by simp [hm]
      rw [if_neg hm, hlast, List.append_nil]

theorem mem_callersOf_ofSites {sites : List CallSite} {m : MethodId} {site : CallSite} :
    site ∈ (ofSites sites).callersOf m ↔ site ∈ sites ∧ site.callee = m := by
  rw [callersOf_ofSites, mem_distinctBy_id, List.mem_filter, decide_eq_true_eq]

end CallGraph

end JobClosure
