import JobClosure.Proofs.Instantiation.Answer

/-!
# What a walk finds is what can be reached

**Soundness** is unconditional: everything found is at the end of a route. **Exactness** holds where a walk
gives up nothing it has not seen. A popped state is given up without being expanded for one of two reasons.
If its node was expanded before, its routes are walked from there. If its key is on its path, the node that
put the key there was expanded, and `eq_of_key_eq` says when that is the same node: when calls do not
recurse, and when no call site wraps a parameter.

So under either condition every popped open state has its node expanded at some time
(`Pops.exists_expands`), and following a route from the start never leaves the popped states.
-/

namespace JobClosure

namespace Walk

variable {graph : CallGraph} {call : CallReference}

/-! ## Where a state comes from -/

/-- A popped state is at the end of a chain of steps. -/
theorem Pops.reached {s : WalkState} (h : Pops graph call s) :
    Relation.ReflTransGen graph.Leads call.node s.node := by
  refine h.invariant (P := fun s => Relation.ReflTransGen graph.Leads call.node s.node) .refl ?_
  intro s hexp hs t ht
  exact hs.tail (hexp.mem_successors_iff.mp ht).1

/-- Every key on a path was put there by an expanded state from which a chain leads on. -/
theorem Pops.exists_expands_of_mem_path {s : WalkState} (h : Pops graph call s) :
    ∀ k ∈ s.path, ∃ e, Expands graph call e ∧ e.key = k
      ∧ Relation.TransGen graph.Leads e.node s.node := by
  refine h.invariant (P := fun s => ∀ k ∈ s.path, ∃ e, Expands graph call e ∧ e.key = k
      ∧ Relation.TransGen graph.Leads e.node s.node) ?_ ?_
  · intro k hk
    exact absurd hk List.not_mem_nil
  · intro s hexp hs t ht k hk
    obtain ⟨hlead, hpath⟩ := hexp.mem_successors_iff.mp ht
    rw [hpath] at hk
    rcases List.mem_cons.mp hk with rfl | hk
    · exact ⟨s, hexp, rfl, .single hlead⟩
    · obtain ⟨e, he, hkey, hchain⟩ := hs k hk
      exact ⟨e, he, hkey, hchain.tail hlead⟩

/-! ## Routes and chains -/

theorem route_of_reached {a b : Node} {ref : TypeRef} (h : Relation.ReflTransGen graph.Leads a b)
    (hend : b.1.closed? = some ref) : ∃ keys, graph.Route a keys ref := by
  induction h using Relation.ReflTransGen.head_induction_on with
  | refl => exact ⟨[], .closed hend⟩
  | head hab _ ih =>
    obtain ⟨keys, hroute⟩ := ih
    exact ⟨_, .step hab hroute⟩

/-! ## Nothing is lost -/

/-- Where a key comes back unchanged, an open state that is popped has its node expanded. -/
theorem Pops.exists_expands {s : WalkState} (hgraph : graph.Acyclic ∨ graph.BindsFlat)
    (h : Pops graph call s) (hopen : s.target.isOpen = true) :
    ∃ e, Expands graph call e ∧ e.node = s.node := by
  rcases h.cases with ⟨ref, href⟩ | ⟨_, hkey⟩ | hskip | hexp
  · rw [(TypeArg.closed?_eq_some_iff.mp href).1] at hopen
    exact absurd hopen (by decide)
  · -- the walk came back to a node on its path, which is this very node
    obtain ⟨e, he, hsame, hchain⟩ := h.exists_expands_of_mem_path s.key hkey
    exact ⟨e, he, (CallGraph.eq_of_key_eq hgraph hchain hsame.symm).symm⟩
  · exact hskip.exists_expands
  · exact ⟨s, hexp, rfl⟩

/-- A route from a popped state ends in a popped state. -/
theorem Pops.exists_end {n : Node} {keys : List WalkKey} {ref : TypeRef}
    (hgraph : graph.Acyclic ∨ graph.BindsFlat) (hroute : graph.Route n keys ref) :
    ∀ s, Pops graph call s → s.node = n → ∃ t, Pops graph call t ∧ t.target.closed? = some ref := by
  induction hroute with
  | closed hend =>
    rintro s hs rfl
    exact ⟨s, hs, hend⟩
  | @step n m keys ref hlead hrest ih =>
    rintro s hs rfl
    obtain ⟨e, he, hnode⟩ := hs.exists_expands hgraph hlead.1
    have ht : (⟨m.1, m.2, e.key :: e.path⟩ : WalkState) ∈ graph.successors e := by
      refine he.mem_successors_iff.mpr ⟨?_, rfl⟩
      rw [hnode]
      exact hlead
    exact ih _ (he.pops_successor ht) rfl

end Walk

namespace Resolver

/--
**Resolving is sound, and exact where no key comes back changed.**

Every instantiation is the closed target at the end of a chain of steps from the call reference. If calls do
not recurse, or if every bound argument is a bare parameter or closed, the closed target at the end of every
chain, of any length, is an instantiation.
-/
theorem resolveCall_reaches (r : Resolver) (call : CallReference) :
    ∃ refs, (r.resolveCall .never call).result = .ok refs
      ∧ (∀ c refs', (r.resolveCall c call).result = .ok refs' → refs' = refs)
      ∧ (∀ ref ∈ refs, ∃ keys, r.graph.Route call.node keys ref)
      ∧ (r.graph.Acyclic ∨ r.graph.BindsFlat →
          ∀ keys ref, r.graph.Route call.node keys ref → ref ∈ refs) := by
  obtain ⟨refs, hresult, hcancel, hmem⟩ := r.resolveCall_answers call
  refine ⟨refs, hresult, hcancel, ?_, ?_⟩
  · intro ref href
    obtain ⟨s, hs, hend⟩ := (hmem ref).mp href
    exact Walk.route_of_reached hs.reached hend
  · intro hgraph keys ref hroute
    exact (hmem ref).mpr (Walk.Pops.exists_end hgraph hroute _ Walk.pops_start rfl)

end Resolver

namespace Swapping

/-- Methods of one type, each with two parameters of its own. -/
def method (name : String) : MethodId := ⟨"Demo.Work", name, []⟩

def first (name : String) : Parameter := ⟨(method name).text, "U", true⟩

def second (name : String) : Parameter := ⟨(method name).text, "V", true⟩

/-- A call that passes on the parameters of the caller, or gives the two in reverse. -/
def passOn (caller callee : String) (reversed : Bool) : CallSite :=
  ⟨method caller, method callee,
    [(first callee, .param (if reversed then second caller else first caller)),
      (second callee, .param (if reversed then first caller else second caller))]⟩

/-- `Ping` and `Pong` call each other, and `Ping` reverses its parameters. `Main` starts with `Ping`. -/
def graph : CallGraph := .ofSites
  [ passOn "Ping" "Pong" true, passOn "Pong" "Ping" false,
    ⟨method "Main", method "Ping",
      [(first "Ping", .named "Text" []), (second "Ping", .named "Int32" [])]⟩ ]

def call : CallReference :=
  ⟨method "Ping", .named "Pair" [.param (first "Ping"), .param (second "Ping")], ""⟩

def swapped : TypeRef := ⟨"Pair", [.named "Int32" [], .named "Text" []]⟩

/-- The target that goes once around the recursion is found. -/
theorem swapped_found : graph.BindsFlat ∧ ¬ graph.Acyclic
    ∧ ∃ refs, ((⟨{}, graph⟩ : Resolver).resolveCall .never call).result = .ok refs ∧ swapped ∈ refs := by
  have hflat : graph.BindsFlat := .of_sites (by decide)
  have hpong : graph.Leads call.node
      (.named "Pair" [.param (first "Pong"), .param (second "Pong")], method "Pong") := by decide
  have hping : graph.Leads (.named "Pair" [.param (first "Pong"), .param (second "Pong")], method "Pong")
      (.named "Pair" [.param (second "Ping"), .param (first "Ping")], method "Ping") := by decide
  have hmain : graph.Leads
      (.named "Pair" [.param (second "Ping"), .param (first "Ping")], method "Ping")
      (swapped.toArg, method "Main") := by decide
  have hcycle : ¬ graph.Acyclic := fun hacyclic =>
    hacyclic (method "Ping") (CallGraph.calledBy_of_leads (.tail (.single hpong) hping))
  obtain ⟨refs, hresult, -, -, hall⟩ := Resolver.resolveCall_reaches ⟨{}, graph⟩ call
  have hend : swapped.toArg.closed? = some swapped := by decide
  exact ⟨hflat, hcycle, refs, hresult,
    hall (.inr hflat) _ _ (.step hpong (.step hping (.step hmain (.closed hend))))⟩

end Swapping

end JobClosure
