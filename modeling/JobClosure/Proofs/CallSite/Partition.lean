import JobClosure.Proofs.CallSite.Graph

/-!
# A graph is a partition of its sites

A graph of a list of sites has a group for every callee, in the order in which the callees first occur, and the group
holds the distinct sites with that callee, in the order in which they first occur (`groups_ofSites`). All that can be
read from a graph follows from this one equation: every distinct site stands in one place, the size counts them, and
both tables list what `callersOf` and `genericCallersOf` answer.

The sites of a graph come in another order than they were given in, group by group. That makes no difference any more:
a graph of the sites of a graph is the graph itself (`ofSites_partition`).
-/

namespace JobClosure

namespace CallGraph

/-- The methods that some sites call, each once. -/
def calleesOf (sites : List CallSite) : List MethodId := distinctBy id (sites.map (·.callee))

/-- The distinct sites among some that call a method. -/
def callsTo (sites : List CallSite) (m : MethodId) : List CallSite :=
  distinctBy id (sites.filter fun site => site.callee = m)

/-! ## The groups -/

/-- Inserting a site into groups that are told by their keys. -/
theorem insertInto_map (site : CallSite) (keys : List MethodId) (group : MethodId → List CallSite)
    (hnodup : keys.Nodup) (hnone : site.callee ∉ keys → group site.callee = []) :
    insertInto site (keys.map fun m => (m, group m))
      = (addDistinct id keys site.callee).map fun m =>
          (m, if site.callee = m then addDistinct id (group m) site else group m) := by
  induction keys with
  | nil =>
    have hgroup := hnone List.not_mem_nil
    simp [insertInto, addDistinct, hgroup]
  | cons key keys ih =>
    obtain ⟨hkey, hnodup⟩ := List.nodup_cons.mp hnodup
    rw [List.map_cons, insertInto]
    by_cases hcallee : key = site.callee
    · -- the group is there, and no later one has its key
      subst hcallee
      have hrest : ∀ m ∈ keys, site.callee ≠ m := fun m hm heq => hkey (heq ▸ hm)
      have hthere : addDistinct id (site.callee :: keys) site.callee = site.callee :: keys :=
        addDistinct_of_mem (by simp)
      rw [if_pos rfl, hthere, List.map_cons, if_pos rfl]
      congr 1
      exact List.map_congr_left fun m hm => by rw [if_neg (hrest m hm)]
    · rw [if_neg hcallee, ih hnodup fun h => hnone (by simp [Ne.symm hcallee, h])]
      by_cases hmem : site.callee ∈ keys
      · rw [addDistinct_of_mem (by simpa using hmem), addDistinct_of_mem (by simp [hmem]), List.map_cons,
          if_neg (Ne.symm hcallee)]
      · have hmem' : site.callee ∉ key :: keys := by simp [hmem, Ne.symm hcallee]
        rw [addDistinct_of_not_mem (by simpa using hmem), addDistinct_of_not_mem (by simpa using hmem'),
          List.cons_append, List.map_cons, if_neg (Ne.symm hcallee)]

theorem calleesOf_concat (sites : List CallSite) (site : CallSite) :
    calleesOf (sites ++ [site]) = addDistinct id (calleesOf sites) site.callee := by
  rw [calleesOf, List.map_append, List.map_singleton, distinctBy_concat, calleesOf]

theorem callsTo_concat (sites : List CallSite) (site : CallSite) (m : MethodId) :
    callsTo (sites ++ [site]) m
      = if site.callee = m then addDistinct id (callsTo sites m) site else callsTo sites m := by
  unfold callsTo
  by_cases hm : site.callee = m
  · simp [hm, List.filter_append, distinctBy_concat]
  · simp [hm, List.filter_append]

theorem nodup_calleesOf (sites : List CallSite) : (calleesOf sites).Nodup := nodup_distinctBy_id _

theorem nodup_callsTo (sites : List CallSite) (m : MethodId) : (callsTo sites m).Nodup := nodup_distinctBy_id _

theorem mem_calleesOf {sites : List CallSite} {m : MethodId} :
    m ∈ calleesOf sites ↔ ∃ site ∈ sites, site.callee = m := by
  simp [calleesOf]

theorem mem_callsTo {sites : List CallSite} {m : MethodId} {site : CallSite} :
    site ∈ callsTo sites m ↔ site ∈ sites ∧ site.callee = m := by
  simp [callsTo]

/-- **The groups of a graph**, from the sites that it was made of. -/
theorem groups_ofSites (sites : List CallSite) :
    (ofSites sites).groups = (calleesOf sites).map fun m => (m, callsTo sites m) := by
  induction sites using List.reverseRecOn with
  | nil => rfl
  | append_singleton sites site ih =>
    have hinsert : (ofSites (sites ++ [site])).groups = insertInto site (ofSites sites).groups := by
      unfold ofSites
      rw [List.foldl_append, List.foldl_cons, List.foldl_nil]
      rfl
    have hnone : site.callee ∉ calleesOf sites → callsTo sites site.callee = [] := by
      intro h
      refine List.eq_nil_iff_forall_not_mem.mpr fun other hother => ?_
      obtain ⟨hmem, hcallee⟩ := mem_callsTo.mp hother
      exact h (mem_calleesOf.mpr ⟨other, hmem, hcallee⟩)
    rw [hinsert, ih, insertInto_map site (calleesOf sites) (callsTo sites) (nodup_calleesOf sites) hnone,
      calleesOf_concat]
    exact List.map_congr_left fun m _ => by rw [callsTo_concat]

/-- Sites that were given already make no difference. -/
theorem ofSites_append_of_subset {sites more : List CallSite} (h : ∀ site ∈ more, site ∈ sites) :
    ofSites (sites ++ more) = ofSites sites := by
  have hcallees : calleesOf (sites ++ more) = calleesOf sites := by
    rw [calleesOf, calleesOf, List.map_append]
    refine distinctBy_append_of_subset fun callee hcallee => ?_
    obtain ⟨site, hsite, rfl⟩ := List.mem_map.mp hcallee
    simpa using ⟨site, h site hsite, rfl⟩
  have hsites : ∀ m, callsTo (sites ++ more) m = callsTo sites m := by
    intro m
    rw [callsTo, callsTo, List.filter_append]
    refine distinctBy_append_of_subset fun site hsite => ?_
    obtain ⟨hmem, hm⟩ := List.mem_filter.mp hsite
    simpa using ⟨h site hmem, of_decide_eq_true hm⟩
  have hgroups : (ofSites (sites ++ more)).groups = (ofSites sites).groups := by
    rw [groups_ofSites, groups_ofSites, hcallees]
    simp only [hsites]
  exact congrArg CallGraph.mk hgroups

/-! ## The sites -/

theorem sites_ofSites (sites : List CallSite) :
    (ofSites sites).sites = (calleesOf sites).flatMap (callsTo sites) := by
  rw [CallGraph.sites, groups_ofSites, List.flatMap_map]

theorem mem_sites_ofSites {sites : List CallSite} {site : CallSite} :
    site ∈ (ofSites sites).sites ↔ site ∈ sites := by
  rw [sites_ofSites, List.mem_flatMap]
  constructor
  · rintro ⟨m, -, h⟩
    exact (mem_callsTo.mp h).1
  · intro h
    exact ⟨site.callee, mem_calleesOf.mpr ⟨site, h, rfl⟩, mem_callsTo.mpr ⟨h, rfl⟩⟩

theorem nodup_sites_ofSites (sites : List CallSite) : (ofSites sites).sites.Nodup := by
  rw [sites_ofSites, List.nodup_flatMap]
  refine ⟨fun m _ => nodup_callsTo sites m, ?_⟩
  -- sites of two groups have different callees
  refine (nodup_calleesOf sites).imp fun {m m'} hne => ?_
  intro site h h'
  exact hne ((mem_callsTo.mp h).2.symm.trans (mem_callsTo.mp h').2)

/-- **The size** is the number of distinct sites. -/
theorem size_ofSites (sites : List CallSite) : (ofSites sites).size = (distinctBy id sites).length := by
  refine List.Perm.length_eq ?_
  rw [List.perm_ext_iff_of_nodup (nodup_sites_ofSites sites) (nodup_distinctBy_id sites)]
  intro site
  rw [mem_sites_ofSites, mem_distinctBy_id]

/-- A site stands in the group of its callee, once, and nowhere else. -/
theorem count_callersOf_ofSites (sites : List CallSite) (m : MethodId) (site : CallSite) :
    ((ofSites sites).callersOf m).count site = if site ∈ sites ∧ site.callee = m then 1 else 0 := by
  have hnodup : ((ofSites sites).callersOf m).Nodup := by
    rw [callersOf_ofSites]
    exact nodup_distinctBy_id _
  rw [hnodup.count]
  exact if_congr mem_callersOf_ofSites rfl rfl

/-! ## Building a graph of the sites of a graph -/

/-- Of lists for distinct keys the one for a given key is left, if all others are empty. -/
theorem flatMap_ite_of_nodup {keys : List MethodId} {m : MethodId} (hnodup : keys.Nodup) (hm : m ∈ keys)
    (group : List CallSite) : (keys.flatMap fun key => if key = m then group else []) = group := by
  induction keys with
  | nil => exact absurd hm List.not_mem_nil
  | cons key keys ih =>
    obtain ⟨hkey, hnodup⟩ := List.nodup_cons.mp hnodup
    rw [List.flatMap_cons]
    by_cases heq : key = m
    · subst heq
      have hrest : (keys.flatMap fun other => if other = key then group else []) = [] := by
        rw [List.flatMap_eq_nil_iff]
        intro other hother
        rw [if_neg]
        rintro rfl
        exact hkey hother
      rw [if_pos rfl, hrest, List.append_nil]
    · rw [if_neg heq, List.nil_append]
      exact ih hnodup ((List.mem_cons.mp hm).resolve_left (Ne.symm heq))

theorem filter_callsTo (sites : List CallSite) (key m : MethodId) :
    (callsTo sites key).filter (fun site => site.callee = m) = if key = m then callsTo sites m else [] := by
  by_cases hkey : key = m
  · subst hkey
    rw [if_pos rfl, List.filter_eq_self]
    intro site hsite
    simpa using (mem_callsTo.mp hsite).2
  · rw [if_neg hkey, List.filter_eq_nil_iff]
    intro site hsite hcallee
    exact hkey ((mem_callsTo.mp hsite).2.symm.trans (by simpa using hcallee))

theorem callsTo_sites_ofSites {sites : List CallSite} {m : MethodId} (hm : m ∈ calleesOf sites) :
    callsTo (ofSites sites).sites m = callsTo sites m := by
  have hfilter : (ofSites sites).sites.filter (fun site => site.callee = m) = callsTo sites m := by
    simp only [sites_ofSites, List.filter_flatMap, filter_callsTo]
    exact flatMap_ite_of_nodup (nodup_calleesOf sites) hm _
  rw [callsTo, hfilter]
  exact distinctBy_eq_self (by rw [List.map_id]; exact nodup_callsTo sites m)

theorem calleesOf_sites_ofSites (sites : List CallSite) : calleesOf (ofSites sites).sites = calleesOf sites := by
  have hgroup : ∀ m ∈ calleesOf sites, distinctBy id ((callsTo sites m).map (·.callee)) = [m] := by
    intro m hm
    obtain ⟨site, hsite, hcallee⟩ := mem_calleesOf.mp hm
    refine distinctBy_id_eq_singleton ?_ ?_
    · exact List.ne_nil_of_mem (List.mem_map_of_mem (mem_callsTo.mpr ⟨hsite, hcallee⟩))
    · intro callee hmem
      obtain ⟨other, hother, rfl⟩ := List.mem_map.mp hmem
      exact (mem_callsTo.mp hother).2
  calc calleesOf (ofSites sites).sites
      = distinctBy id ((calleesOf sites).flatMap fun m => (callsTo sites m).map (·.callee)) := by
        rw [calleesOf, sites_ofSites, List.map_flatMap]
    _ = distinctBy id ((calleesOf sites).flatMap fun m => distinctBy id ((callsTo sites m).map (·.callee))) :=
        (distinctBy_flatMap_distinctBy _ _).symm
    _ = distinctBy id ((calleesOf sites).flatMap fun m => [m]) := by
        rw [List.flatMap_congr hgroup]
    _ = distinctBy id (calleesOf sites) := by simp
    _ = calleesOf sites := distinctBy_eq_self (by rw [List.map_id]; exact nodup_calleesOf sites)

theorem ofSites_sites_ofSites (sites : List CallSite) : ofSites (ofSites sites).sites = ofSites sites := by
  have hgroups : (ofSites (ofSites sites).sites).groups = (ofSites sites).groups := by
    rw [groups_ofSites (ofSites sites).sites, groups_ofSites sites, calleesOf_sites_ofSites]
    exact List.map_congr_left fun m hm => by rw [callsTo_sites_ofSites hm]
  cases h : ofSites (ofSites sites).sites with
  | mk groups =>
    rw [h] at hgroups
    exact congrArg CallGraph.mk hgroups

/-! ## The tables -/

theorem callersOf_eq_callsTo (sites : List CallSite) (m : MethodId) :
    (ofSites sites).callersOf m = callsTo sites m := callersOf_ofSites sites m

theorem lookupTable_ofSites (sites : List CallSite) : (ofSites sites).lookupTable false
    = (calleesOf sites).map fun m => (m, (ofSites sites).callersOf m) := by
  simp only [lookupTable, groups_ofSites, List.map_map, callersOf_eq_callsTo, Bool.false_eq_true, if_false]
  -- every callee has a site, so no entry is left out
  refine List.filter_eq_self.mpr fun entry hentry => ?_
  obtain ⟨m, hm, rfl⟩ := List.mem_map.mp hentry
  obtain ⟨site, hsite, hcallee⟩ := mem_calleesOf.mp hm
  have hmem : site ∈ callsTo sites m := mem_callsTo.mpr ⟨hsite, hcallee⟩
  simp [List.ne_nil_of_mem hmem]

theorem lookupTable_generic_ofSites (sites : List CallSite) : (ofSites sites).lookupTable true
    = ((calleesOf sites).map fun m => (m, (ofSites sites).genericCallersOf m)).filter fun entry => entry.2 ≠ [] := by
  simp only [lookupTable, groups_ofSites, List.map_map, genericCallersOf, callersOf_eq_callsTo, if_true]
  refine List.filter_congr fun entry _ => ?_
  cases entry.2 <;> rfl

/--
**A graph is a partition of its sites, without repetitions.**

Its entries are the callees in the order of their first occurrence. The callers of a method are the sites with this
callee, in the order of their first occurrence; a site that was given stands among the callers of its callee once and
among those of no other method. The size counts the distinct sites. The whole table lists for every callee its callers,
the other one its callers with generic arguments, where there are any. A graph of the sites in the table is the same
graph.
-/
theorem ofSites_partition (sites : List CallSite) :
    (∀ m, (ofSites sites).callersOf m = distinctBy id (sites.filter fun site => site.callee = m))
    ∧ (∀ site m, ((ofSites sites).callersOf m).count site = if site ∈ sites ∧ site.callee = m then 1 else 0)
    ∧ (ofSites sites).size = (distinctBy id sites).length
    ∧ (ofSites sites).lookupTable false
        = (distinctBy id (sites.map (·.callee))).map (fun m => (m, (ofSites sites).callersOf m))
    ∧ (ofSites sites).lookupTable true
        = ((distinctBy id (sites.map (·.callee))).map fun m => (m, (ofSites sites).genericCallersOf m)).filter
            (fun entry => entry.2 ≠ [])
    ∧ ofSites (((ofSites sites).lookupTable false).flatMap (·.2)) = ofSites sites := by
  refine ⟨callersOf_ofSites sites, fun site m => count_callersOf_ofSites sites m site, size_ofSites sites,
    lookupTable_ofSites sites, lookupTable_generic_ofSites sites, ?_⟩
  have hsites : ((ofSites sites).lookupTable false).flatMap (·.2) = (ofSites sites).sites := by
    rw [lookupTable_ofSites, sites_ofSites, List.flatMap_map]
    exact List.flatMap_congr fun m _ => callersOf_eq_callsTo sites m
  rw [hsites]
  exact ofSites_sites_ofSites sites

/-- The sites come out callee by callee, and a repeated one is left out. -/
example :
    let call (caller callee : String) : CallSite := ⟨⟨"Work", caller, []⟩, ⟨"Work", callee, []⟩, []⟩
    (ofSites [call "A" "X", call "B" "Y", call "C" "X", call "A" "X"]).sites
      = [call "A" "X", call "C" "X", call "B" "Y"] := by
  decide

end CallGraph

end JobClosure
