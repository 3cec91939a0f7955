import JobClosure.Proofs.Instantiation.Reachability

/-!
# What remembering expanded nodes costs

The walk without its memory (`plainRun`) is the same walk with nothing remembered as expanded before any
step. It finds the closed targets at the end of the routes on which no key occurs twice (`mem_plainRun_iff`),
and nothing else is ever found with the memory (`resolveCall_eq_plain_iff`, third part).

The memory is harmless only if what can be reached from a node does not depend on the way to it. But the
path of a state cuts routes by their keys, and a key does not tell targets of different shape apart. A node
that is expanded first with a long path can lose a route that meets this path; when it is popped again with
a shorter path, on which the route would be clear, it is skipped. A closed target is **shadowed** when a
skipped state could reach it by such a route. The two walks agree exactly when every shadowed target is
found some other way; where no key comes back changed they agree (`resolveCall_eq_plain`).
-/

namespace JobClosure

namespace Walk

variable {graph : CallGraph} {call : CallReference}

/-! ## The walk without its memory -/

/-- A step of a walk that does not remember what it has expanded. -/
def plainStep (graph : CallGraph) (w : Walk) : Walk := ({ w with expanded := [] } : Walk).step graph

/-- The closed targets that a walk finds without remembering what it has expanded. -/
def plainRun (graph : CallGraph) (w : Walk) : List TypeRef :=
  if _h : w.pending = [] then w.found else plainRun graph (w.plainStep graph)
termination_by w.weight graph
decreasing_by exact weight_step_lt (w := { w with expanded := [] }) _h

/-- What is found without memory: what was found before, and what clear routes reach from pending states. -/
theorem mem_plainRun {w : Walk} {ref : TypeRef} :
    ref ∈ plainRun graph w ↔ ref ∈ w.found ∨ ∃ s ∈ w.pending, graph.ClearFrom s ref := by
  induction w using plainRun.induct graph with
  | case1 w hend =>
    rw [plainRun, dif_pos hend, hend]
    simp
  | case2 w hpending ih =>
    rw [plainRun, dif_neg hpending, ih]
    cases hp : w.pending with
    | nil => exact absurd hp hpending
    | cons s rest =>
      have hpop : ({ w with expanded := [] } : Walk).pending = s :: rest := hp
      unfold plainStep
      rw [List.exists_mem_cons_iff]
      rcases step_cases graph hpop with ⟨ref', hclosed, hw⟩ | ⟨hopen, hkey, hw⟩ | ⟨_, _, hnode, _⟩ |
        ⟨hopen, hkey, _, hw⟩
      · rw [hw, CallGraph.clearFrom_iff_of_closed hclosed]
        have hadd : ref ∈ addDistinct id w.found ref' ↔ ref ∈ w.found ∨ ref = ref' :=
          ⟨mem_addDistinct, fun h => h.elim subset_addDistinct (· ▸ self_mem_addDistinct_id)⟩
        rw [hadd, or_assoc]
      · rw [hw]
        have hnone : ¬ graph.ClearFrom s ref := CallGraph.not_clearFrom_of_key_mem hopen hkey
        simp [hnone]
      · -- nothing is ever remembered as expanded
        exact absurd hnode List.not_mem_nil
      · rw [hw, CallGraph.clearFrom_iff_of_fresh hopen hkey]
        simp only [List.mem_append, or_and_right, exists_or]

/-- **The walk without its memory finds the ends of the routes on which no key occurs twice.** -/
theorem mem_plainRun_iff {ref : TypeRef} :
    ref ∈ plainRun graph (start call) ↔ ∃ keys, graph.Route call.node keys ref ∧ keys.Nodup := by
  rw [mem_plainRun]
  constructor
  · rintro (h | ⟨s, hs, keys, hroute, hnodup, -⟩)
    · exact absurd h List.not_mem_nil
    · obtain rfl : s = startState call := by simpa [start, startState] using hs
      exact ⟨keys, hroute, hnodup⟩
  · rintro ⟨keys, hroute, hnodup⟩
    refine .inr ⟨startState call, List.mem_cons_self, keys, hroute, hnodup, ?_⟩
    exact List.disjoint_nil_right _

/-! ## With the memory -/

theorem Pops.mem_plainRun {s : WalkState} {ref : TypeRef} (h : Pops graph call s)
    (hclear : graph.ClearFrom s ref) : ref ∈ plainRun graph (start call) := by
  have hstart : graph.ClearFrom (startState call) ref := by
    refine h.invariant (P := fun s => graph.ClearFrom s ref → graph.ClearFrom (startState call) ref)
      id ?_ hclear
    intro s hexp hs t ht hclear
    exact hs ((CallGraph.clearFrom_iff_of_fresh hexp.isOpen hexp.fresh).mpr ⟨t, ht, hclear⟩)
  exact Walk.mem_plainRun.mpr (.inr ⟨_, List.mem_cons_self, hstart⟩)

theorem Pops.closed_mem_plainRun {s : WalkState} {ref : TypeRef} (h : Pops graph call s)
    (hend : s.target.closed? = some ref) : ref ∈ plainRun graph (start call) :=
  h.mem_plainRun ((CallGraph.clearFrom_iff_of_closed hend).mpr rfl)

/-- A closed target that a skipped state could still reach, by a route that is clear of its own path but not
of the path with which its node was expanded. -/
def Shadowed (graph : CallGraph) (call : CallReference) (ref : TypeRef) : Prop :=
  ∃ s first keys, Skips graph call s ∧ Expands graph call first ∧ first.node = s.node
    ∧ graph.Route s.node keys ref ∧ keys.Nodup ∧ keys.Disjoint s.path ∧ ¬ keys.Disjoint first.path

theorem Shadowed.mem_plainRun {ref : TypeRef} (h : Shadowed graph call ref) :
    ref ∈ plainRun graph (start call) := by
  obtain ⟨s, _, keys, hskip, _, _, hroute, hnodup, hdisjoint, _⟩ := h
  exact hskip.pops.mem_plainRun ⟨keys, hroute, hnodup, hdisjoint⟩

/-- From a popped state a clear route ends in a popped state or in a shadowed target. -/
theorem Pops.end_or_shadowed {keys : List WalkKey} {ref : TypeRef} (hnodup : keys.Nodup) :
    ∀ s, Pops graph call s → graph.Route s.node keys ref → keys.Disjoint s.path →
      (∃ t, Pops graph call t ∧ t.target.closed? = some ref) ∨ Shadowed graph call ref := by
  induction keys with
  | nil =>
    intro s hs hroute _
    cases hroute with
    | closed hend => exact .inl ⟨s, hs, hend⟩
  | cons k rest ih =>
    intro s hs hroute hdisjoint
    have hrest := (List.nodup_cons.mp hnodup).2
    -- the route goes on from every expanded state with this node whose path it does not meet
    have expanded : ∀ e, Expands graph call e → e.node = s.node → (k :: rest).Disjoint e.path →
        (∃ t, Pops graph call t ∧ t.target.closed? = some ref) ∨ Shadowed graph call ref := by
      intro e he hnode hclear
      rw [← hnode] at hroute
      obtain ⟨t, rest', ht, hkeys, htail⟩ := hroute.of_open he.isOpen
      obtain ⟨rfl, rfl⟩ := List.cons.inj hkeys
      refine ih hrest t (he.pops_successor ht) htail ?_
      rw [(he.mem_successors_iff.mp ht).2, List.disjoint_cons_right]
      exact ⟨(List.nodup_cons.mp hnodup).1, (List.disjoint_cons_left.mp hclear).2⟩
    rcases hs.cases with ⟨ref', hclosed⟩ | ⟨hopen, hcut⟩ | hskip | hexp
    · have hclear : graph.ClearFrom s ref := ⟨_, hroute, hnodup, hdisjoint⟩
      rw [CallGraph.clearFrom_iff_of_closed hclosed] at hclear
      exact .inl ⟨s, hs, hclear ▸ hclosed⟩
    · exact absurd ⟨_, hroute, hnodup, hdisjoint⟩ (CallGraph.not_clearFrom_of_key_mem hopen hcut)
    · -- a skipped state hands its routes over to the one that was expanded first
      obtain ⟨first, hfirst, hnode⟩ := hskip.exists_expands
      by_cases hclear : (k :: rest).Disjoint first.path
      · exact expanded first hfirst hnode hclear
      · exact .inr ⟨s, first, k :: rest, hskip, hfirst, hnode, hroute, hnodup, hdisjoint, hclear⟩
    · exact expanded s hexp rfl hdisjoint

end Walk

namespace Resolver

/--
**When remembering expanded nodes changes nothing.**

The walk without its memory finds the closed targets at the end of the routes on which no key occurs twice.
What is found with the memory is among them, for every call graph and call reference. It is all of them if
and only if every shadowed target is found.
-/
theorem resolveCall_eq_plain_iff (r : Resolver) (call : CallReference) :
    ∃ refs, (r.resolveCall .never call).result = .ok refs
      ∧ (∀ c refs', (r.resolveCall c call).result = .ok refs' → refs' = refs)
      ∧ (∀ ref, ref ∈ Walk.plainRun r.graph (Walk.start call) ↔
          ∃ keys, r.graph.Route call.node keys ref ∧ keys.Nodup)
      ∧ (∀ ref ∈ refs, ref ∈ Walk.plainRun r.graph (Walk.start call))
      ∧ ((∀ ref, ref ∈ refs ↔ ref ∈ Walk.plainRun r.graph (Walk.start call)) ↔
          ∀ ref, Walk.Shadowed r.graph call ref → ref ∈ refs) := by
  obtain ⟨refs, hresult, hcancel, hmem⟩ := r.resolveCall_answers call
  have sound : ∀ ref ∈ refs, ref ∈ Walk.plainRun r.graph (Walk.start call) := by
    intro ref href
    obtain ⟨s, hs, hend⟩ := (hmem ref).mp href
    exact hs.closed_mem_plainRun hend
  refine ⟨refs, hresult, hcancel, fun _ => Walk.mem_plainRun_iff, sound, ?_, ?_⟩
  · intro hsame ref hshadowed
    exact (hsame ref).mpr hshadowed.mem_plainRun
  · intro hfound ref
    refine ⟨sound ref, fun hplain => ?_⟩
    obtain ⟨keys, hroute, hnodup⟩ := Walk.mem_plainRun_iff.mp hplain
    rcases Walk.Pops.end_or_shadowed hnodup _ Walk.pops_start hroute (List.disjoint_nil_right _) with
      hend | hshadowed
    · exact (hmem ref).mpr hend
    · exact hfound ref hshadowed

/-- Where calls do not recurse and where bindings are flat, the memory loses nothing. -/
theorem resolveCall_eq_plain (r : Resolver) (call : CallReference)
    (hgraph : r.graph.Acyclic ∨ r.graph.BindsFlat) :
    ∃ refs, (r.resolveCall .never call).result = .ok refs
      ∧ ∀ ref, ref ∈ refs ↔ ref ∈ Walk.plainRun r.graph (Walk.start call) := by
  obtain ⟨refs, hresult, -, hmem⟩ := r.resolveCall_answers call
  refine ⟨refs, hresult, fun ref => ?_⟩
  rw [hmem]
  constructor
  · rintro ⟨s, hs, hend⟩
    exact hs.closed_mem_plainRun hend
  · intro hplain
    obtain ⟨keys, hroute, -⟩ := Walk.mem_plainRun_iff.mp hplain
    exact Walk.Pops.exists_end hgraph hroute _ Walk.pops_start rfl

end Resolver

/-! ## A target that is lost -/

namespace Regrowth

/-- Methods of one type, each with a parameter of its own. -/
def method (name : String) : MethodId := ⟨"Demo.Work", name, []⟩

def parameter (name : String) : Parameter := ⟨(method name).text, "U", true⟩

def own (name : String) : TypeArg := .param (parameter name)

/-- `Entry` is called from `Ping` and `Pong`, which call each other. `Ping` passes its parameter on inside a
list. `Main` starts with `Ping`. -/
def graph : CallGraph := .ofSites
  [ ⟨method "Ping", method "Entry", [(parameter "Entry", own "Ping")]⟩,
    ⟨method "Ping", method "Pong", [(parameter "Pong", .named "List" [own "Ping"])]⟩,
    ⟨method "Pong", method "Entry", [(parameter "Entry", own "Pong")]⟩,
    ⟨method "Pong", method "Ping", [(parameter "Ping", own "Pong")]⟩,
    ⟨method "Main", method "Ping", [(parameter "Ping", .named "Int32" [])]⟩ ]

def call : CallReference := ⟨method "Entry", .named "Job" [own "Entry"], ""⟩

/-- The target that is found. -/
def short : TypeRef := ⟨"Job", [.named "Int32" []]⟩

/-- The target at the end of the route from `Entry` over `Pong` and `Ping` to `Main`. -/
def long : TypeRef := ⟨"Job", [.named "List" [.named "Int32" []]]⟩

theorem comesTo_short : Walk.ComesTo graph call [short] := ⟨6, by decide, by decide⟩

/-- No key occurs twice on the way over `Pong`. -/
theorem exists_route_long : ∃ keys, graph.Route call.node keys long ∧ keys.Nodup := by
  refine ⟨[(method "Entry", [parameter "Entry"]), (method "Pong", [parameter "Pong"]),
    (method "Ping", [parameter "Ping"])], ?_, by decide⟩
  have hpong : graph.Leads call.node (.named "Job" [own "Pong"], method "Pong") := by decide
  have hping : graph.Leads (.named "Job" [own "Pong"], method "Pong")
      (.named "Job" [.named "List" [own "Ping"]], method "Ping") := by decide
  have hmain : graph.Leads (.named "Job" [.named "List" [own "Ping"]], method "Ping")
      (long.toArg, method "Main") := by decide
  exact .step hpong (.step hping (.step hmain (.closed (by decide))))

/-- **The memory loses a target.** The walk first comes to `Pong` by way of `Ping`, from where it cannot
return to `Ping`. When it comes to `Pong` again, straight from `Entry`, it skips it, and the longer target
is never found. -/
theorem long_lost :
    ((⟨{}, graph⟩ : Resolver).resolveCall .never call).result = .ok [short]
      ∧ long ∈ Walk.plainRun graph (Walk.start call)
      ∧ ¬ ∀ ref, ref ∈ [short] ↔ ref ∈ Walk.plainRun graph (Walk.start call) := by
  have hlong : long ∈ Walk.plainRun graph (Walk.start call) :=
    Walk.mem_plainRun_iff.mpr exists_route_long
  refine ⟨?_, hlong, fun hsame => ?_⟩
  · have hresult := @Resolver.result_of_comesTo ⟨{}, graph⟩ _ _ comesTo_short
    rwa [Resolver.sortBySpelling_singleton] at hresult
  · have hnot : long ∉ [short] := by decide
    exact hnot ((hsame long).mpr hlong)

end Regrowth

end JobClosure
