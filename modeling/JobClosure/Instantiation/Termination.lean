import JobClosure.Instantiation.Walk

/-!
# Walks end

Targets can grow without bound, because a recursive method may call itself with a larger argument. Paths
cannot: a path never repeats a key, and only finitely many keys can occur. A key is a method of the graph
(or the one the walk starts in) with a list of distinct parameters, taken from those of the target and
those of the arguments that the graph binds.

The rank of a state counts the keys that are still free to be put on its path. Every successor has a
smaller rank (`rank_lt_of_mem_successors`). A walk is weighed by giving a state of rank `r` the weight
`(n + 1) ^ r`, where `n` is the number of call sites; a step replaces a state by at most `n` states of
smaller rank or by none, so it makes the walk lighter (`weight_step_lt`).
-/

namespace JobClosure

/-! ## Parameters after substitution -/

/-- The parameters in the arguments of bindings. -/
def Bindings.parameters (bindings : Bindings) : List Parameter := bindings.flatMap (·.2.occurrences)

namespace TypeArg

theorem mem_occurrences_apply {bindings : Bindings} {p q : Parameter}
    (h : q ∈ (bindings.apply p).occurrences) : q = p ∨ q ∈ bindings.parameters := by
  unfold Bindings.apply at h
  cases hp : bindings.get? p with
  | none => exact .inl (by simpa [hp, occurrences] using h)
  | some arg =>
    refine .inr (List.mem_flatMap.mpr ⟨(p, arg), Bindings.mem_of_get? hp, ?_⟩)
    simpa [hp] using h

mutual

/-- A parameter of a substituted argument was there before or comes from the bindings. -/
theorem mem_occurrences_subst {bindings : Bindings} {q : Parameter} :
    ∀ arg : TypeArg, q ∈ (arg.subst bindings).occurrences → q ∈ arg.occurrences ∨ q ∈ bindings.parameters
  | .param p, h => by
    rcases mem_occurrences_apply (by simpa [subst] using h) with rfl | h
    · exact .inl (by simp [occurrences])
    · exact .inr h
  | .named _ args, h => by
    simpa [occurrences] using mem_occurrencesAll_substAll args (by simpa [subst, occurrences] using h)

theorem mem_occurrencesAll_substAll {bindings : Bindings} {q : Parameter} :
    ∀ args : List TypeArg, q ∈ occurrencesAll (substAll bindings args) →
      q ∈ occurrencesAll args ∨ q ∈ bindings.parameters
  | [], h => by simp [substAll, occurrencesAll] at h
  | arg :: rest, h => by
    simp only [substAll, occurrencesAll, List.mem_append] at h ⊢
    rcases h with h | h
    · rcases mem_occurrences_subst arg h with h | h
      · exact .inl (.inl h)
      · exact .inr h
    · rcases mem_occurrencesAll_substAll rest h with h | h
      · exact .inl (.inr h)
      · exact .inr h

end

end TypeArg

/-! ## The keys that can occur -/

/-- All lists of at most `n` elements of `xs`. -/
def listsUpTo (xs : List α) : Nat → List (List α)
  | 0 => [[]]
  | n + 1 => [] :: xs.flatMap fun x => (listsUpTo xs n).map (x :: ·)

theorem mem_listsUpTo {xs l : List α} {n : Nat} :
    l ∈ listsUpTo xs n ↔ l.length ≤ n ∧ l ⊆ xs := by
  induction n generalizing l with
  | zero => cases l <;> simp [listsUpTo]
  | succ n ih =>
    cases l with
    | nil => simp [listsUpTo]
    | cons x l =>
      simp only [listsUpTo, List.mem_cons, List.mem_flatMap, List.mem_map, ih, List.length_cons,
        List.cons_subset, Nat.add_le_add_iff_right]
      constructor
      · rintro (h | ⟨y, hy, k, ⟨hk, hs⟩, h⟩)
        · simp at h
        · cases h
          exact ⟨hk, hy, hs⟩
      · rintro ⟨hl, hx, hs⟩
        exact .inr ⟨x, hx, l, ⟨hl, hs⟩, rfl⟩

namespace CallGraph

/-- The parameters in the arguments that the graph binds. -/
def boundParameters (graph : CallGraph) : List Parameter := graph.sites.flatMap (·.bindings.parameters)

/-- The parameters that can occur in a target reached from `s`. -/
def parametersFrom (graph : CallGraph) (s : WalkState) : List Parameter :=
  distinctBy id (s.target.occurrences ++ graph.boundParameters)

/-- The methods in whose terms a target reached from `s` can be expressed. -/
def methodsFrom (graph : CallGraph) (s : WalkState) : List MethodId :=
  s.context :: graph.sites.map (·.caller)

/-- The keys that a state reached from `s` can have. -/
def keysFrom (graph : CallGraph) (s : WalkState) : List WalkKey :=
  let parameters := graph.parametersFrom s
  (graph.methodsFrom s).flatMap fun m => (listsUpTo parameters parameters.length).map (m, ·)

/-- The keys that can still be put on the path of `s`. -/
def freeKeys (graph : CallGraph) (s : WalkState) : List WalkKey :=
  (distinctBy id (graph.keysFrom s)).filter fun k => !s.path.contains k

/-- The number of keys that can still be put on the path of `s`. -/
def rank (graph : CallGraph) (s : WalkState) : Nat := (graph.freeKeys s).length

theorem mem_keysFrom {graph : CallGraph} {s : WalkState} {k : WalkKey} :
    k ∈ graph.keysFrom s ↔ k.1 ∈ graph.methodsFrom s ∧
      k.2.length ≤ (graph.parametersFrom s).length ∧ k.2 ⊆ graph.parametersFrom s := by
  obtain ⟨m, l⟩ := k
  simp [keysFrom, mem_listsUpTo]

theorem nodup_freeKeys (graph : CallGraph) (s : WalkState) : (graph.freeKeys s).Nodup :=
  List.Pairwise.filter _ (nodup_distinctBy_id _)

theorem mem_freeKeys {graph : CallGraph} {s : WalkState} {k : WalkKey} :
    k ∈ graph.freeKeys s ↔ k ∈ graph.keysFrom s ∧ k ∉ s.path := by
  simp [freeKeys]

/-- The key of a state is one of the keys that can occur. -/
theorem key_mem_keysFrom (graph : CallGraph) (s : WalkState) : s.key ∈ graph.keysFrom s := by
  have subset : s.target.openParameters ⊆ graph.parametersFrom s := by
    intro p hp
    have : p ∈ s.target.occurrences := by
      simpa [TypeArg.openParameters] using hp
    simp [parametersFrom, this]
  refine mem_keysFrom.mpr ⟨List.mem_cons_self, ?_, subset⟩
  exact (nodup_distinctBy_id _).length_le_of_subset subset

/-! ## Successors have smaller rank -/

theorem mem_sites_of_mem_callersOf {graph : CallGraph} {m : MethodId} {site : CallSite}
    (h : site ∈ graph.callersOf m) : site ∈ graph.sites := by
  unfold callersOf at h
  cases hm : graph.groups.lookup m with
  | none => simp [hm] at h
  | some sites =>
    obtain ⟨k, hk⟩ : ∃ k, (k, sites) ∈ graph.groups := by
      generalize graph.groups = groups at hm
      induction groups with
      | nil => simp at hm
      | cons group rest ih =>
        obtain ⟨k, v⟩ := group
        rw [List.lookup_cons] at hm
        split at hm
        · cases hm
          exact ⟨k, List.mem_cons_self⟩
        · obtain ⟨k', hk'⟩ := ih hm
          exact ⟨k', List.mem_cons_of_mem _ hk'⟩
    exact List.mem_flatMap.mpr ⟨_, hk, by simpa [hm] using h⟩

theorem length_callersOf_le (graph : CallGraph) (m : MethodId) :
    (graph.callersOf m).length ≤ graph.size := by
  unfold callersOf size sites
  generalize graph.groups = groups
  induction groups with
  | nil => simp
  | cons group rest ih =>
    obtain ⟨k, v⟩ := group
    rw [List.lookup_cons, List.flatMap_cons, List.length_append]
    split
    · simp
    · exact Nat.le_trans ih (Nat.le_add_left ..)

theorem length_successors_le (graph : CallGraph) (s : WalkState) :
    (graph.successors s).length ≤ graph.size :=
  Nat.le_trans (List.length_filterMap_le ..) (graph.length_callersOf_le s.context)

/-- What a successor is: a call site's substitution of the target, at its caller, with a longer path. -/
theorem of_mem_successors {graph : CallGraph} {s t : WalkState} (h : t ∈ graph.successors s) :
    ∃ site ∈ graph.callersOf s.context,
      t = ⟨s.target.subst site.bindings, site.caller, s.key :: s.path⟩ := by
  obtain ⟨site, hsite, ht⟩ := List.mem_filterMap.mp h
  refine ⟨site, hsite, ?_⟩
  simp only [WalkState.through] at ht
  split at ht
  · simp at ht
  · exact (Option.some.inj ht).symm

theorem parametersFrom_subset {graph : CallGraph} {s t : WalkState} (h : t ∈ graph.successors s) :
    graph.parametersFrom t ⊆ graph.parametersFrom s := by
  obtain ⟨site, hsite, rfl⟩ := of_mem_successors h
  have bound : ∀ p, p ∈ site.bindings.parameters → p ∈ graph.boundParameters := fun p hp =>
    List.mem_flatMap.mpr ⟨site, mem_sites_of_mem_callersOf hsite, hp⟩
  intro p hp
  simp only [parametersFrom, mem_distinctBy_id, List.mem_append] at hp ⊢
  rcases hp with hp | hp
  · rcases TypeArg.mem_occurrences_subst _ hp with hp | hp
    · exact .inl hp
    · exact .inr (bound p hp)
  · exact .inr hp

theorem keysFrom_subset {graph : CallGraph} {s t : WalkState} (h : t ∈ graph.successors s) :
    graph.keysFrom t ⊆ graph.keysFrom s := by
  have params := parametersFrom_subset h
  intro k hk
  obtain ⟨hm, hlen, hsub⟩ := mem_keysFrom.mp hk
  refine mem_keysFrom.mpr ⟨?_, ?_, List.Subset.trans hsub params⟩
  · obtain ⟨site, hsite, rfl⟩ := of_mem_successors h
    rcases List.mem_cons.mp hm with hm | hm
    · exact List.mem_cons_of_mem _
        (List.mem_map.mpr ⟨site, mem_sites_of_mem_callersOf hsite, hm.symm⟩)
    · exact List.mem_cons_of_mem _ hm
  · exact Nat.le_trans hlen ((nodup_distinctBy_id _).length_le_of_subset params)

/-- A successor's path is longer by a key, so fewer keys are free. -/
theorem rank_lt_of_mem_successors {graph : CallGraph} {s t : WalkState} (h : t ∈ graph.successors s)
    (fresh : s.key ∉ s.path) : graph.rank t < graph.rank s := by
  have path : t.path = s.key :: s.path := by
    obtain ⟨site, _, rfl⟩ := of_mem_successors h
    rfl
  have nodup : (s.key :: graph.freeKeys t).Nodup := by
    refine List.nodup_cons.mpr ⟨fun hk => ?_, graph.nodup_freeKeys t⟩
    exact (mem_freeKeys.mp hk).2 (path ▸ List.mem_cons_self)
  have subset : s.key :: graph.freeKeys t ⊆ graph.freeKeys s := by
    refine List.cons_subset.mpr ⟨mem_freeKeys.mpr ⟨graph.key_mem_keysFrom s, fresh⟩, fun k hk => ?_⟩
    obtain ⟨hk, hpath⟩ := mem_freeKeys.mp hk
    exact mem_freeKeys.mpr ⟨keysFrom_subset h hk, fun hs => hpath (path ▸ List.mem_cons_of_mem _ hs)⟩
  exact nodup.length_le_of_subset subset

end CallGraph

/-! ## Every step makes the walk lighter -/

namespace Walk

/-- The weight of states of a given rank. -/
def rankWeight (graph : CallGraph) (rank : Nat) : Nat := Nat.pow (graph.size + 1) rank

def pendingWeight (graph : CallGraph) : List WalkState → Nat
  | [] => 0
  | s :: rest => rankWeight graph (graph.rank s) + pendingWeight graph rest

def weight (graph : CallGraph) (w : Walk) : Nat := pendingWeight graph w.pending

theorem rankWeight_pos (graph : CallGraph) (rank : Nat) : 0 < rankWeight graph rank :=
  Nat.pow_pos (Nat.succ_pos _)

theorem rankWeight_mono (graph : CallGraph) {a b : Nat} (h : a ≤ b) :
    rankWeight graph a ≤ rankWeight graph b :=
  Nat.pow_le_pow_right (Nat.succ_pos _) h

theorem rankWeight_succ (graph : CallGraph) (rank : Nat) :
    rankWeight graph (rank + 1) = (graph.size + 1) * rankWeight graph rank :=
  Nat.mul_comm _ _

theorem pendingWeight_append (graph : CallGraph) (a b : List WalkState) :
    pendingWeight graph (a ++ b) = pendingWeight graph a + pendingWeight graph b := by
  induction a with
  | nil => simp [pendingWeight]
  | cons s rest ih =>
    simp only [List.cons_append, pendingWeight, ih]
    omega

theorem pendingWeight_le {graph : CallGraph} {pending : List WalkState} {rank : Nat}
    (h : ∀ s ∈ pending, graph.rank s ≤ rank) :
    pendingWeight graph pending ≤ pending.length * rankWeight graph rank := by
  induction pending with
  | nil => simp [pendingWeight]
  | cons s rest ih =>
    have hrest := ih fun t ht => h t (List.mem_cons_of_mem _ ht)
    have hs := rankWeight_mono graph (h s List.mem_cons_self)
    simp only [pendingWeight, List.length_cons, Nat.add_mul, Nat.one_mul]
    omega

/-- The successors of a state weigh less than the state. -/
theorem pendingWeight_successors_lt {graph : CallGraph} {s : WalkState} (fresh : s.key ∉ s.path) :
    pendingWeight graph (graph.successors s) < rankWeight graph (graph.rank s) := by
  cases hs : graph.successors s with
  | nil => exact rankWeight_pos graph _
  | cons t rest =>
    rw [← hs]
    have below : ∀ t ∈ graph.successors s, graph.rank t < graph.rank s := fun t ht =>
      graph.rank_lt_of_mem_successors ht fresh
    obtain ⟨r, hr⟩ : ∃ r, graph.rank s = r + 1 :=
      Nat.exists_eq_add_one_of_ne_zero (Nat.ne_zero_of_lt (below t (hs ▸ List.mem_cons_self)))
    rw [hr, rankWeight_succ]
    calc pendingWeight graph (graph.successors s)
        ≤ (graph.successors s).length * rankWeight graph r :=
          pendingWeight_le fun t ht => Nat.le_of_lt_succ (Nat.lt_of_lt_of_eq (below t ht) hr)
      _ ≤ graph.size * rankWeight graph r := Nat.mul_le_mul_right _ (graph.length_successors_le s)
      _ < (graph.size + 1) * rankWeight graph r :=
          Nat.mul_lt_mul_of_pos_right (Nat.lt_succ_self _) (rankWeight_pos graph r)

/-- A step with something pending makes the walk lighter. -/
theorem weight_step_lt {graph : CallGraph} {w : Walk} (h : w.pending ≠ []) :
    (w.step graph).weight graph < w.weight graph := by
  obtain ⟨pending, expanded, found⟩ := w
  cases pending with
  | nil => exact absurd rfl h
  | cons s rest =>
    have dropped : pendingWeight graph rest < pendingWeight graph (s :: rest) := by
      have positive := rankWeight_pos graph (graph.rank s)
      simp only [pendingWeight]
      omega
    simp only [step, visit, weight]
    split
    · exact dropped
    · split
      · exact dropped
      · split
        · exact dropped
        · rename_i fresh _
          have lighter : pendingWeight graph (graph.successors s) < _ := pendingWeight_successors_lt fresh
          rw [pendingWeight_append]
          simp only [pendingWeight]
          omega

end Walk

end JobClosure
