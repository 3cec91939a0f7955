import JobClosure.Instantiation.Termination
import JobClosure.Proofs.TypeRef.Substitution
import Mathlib.Data.List.Nodup
import Mathlib.Logic.Relation

/-!
# Chains of call sites

What a walk looks for, without the walk. A **node** is a target with the method in whose terms it is
expressed. One node **leads** to another through a call site of its method; a **route** is a chain of such
steps that ends in a closed target, and its keys are those of the open nodes on the way. The closed end
needs no key: no parameter is open in it, so its key is none of theirs.

A route is **clear** of a path when it meets no key twice and none that is on the path. Clear routes are
what can still be walked from a state (`clearFrom_iff_of_fresh`).
-/

namespace JobClosure

/-- A target and the method in whose terms it is expressed. -/
abbrev Node := TypeArg × MethodId

/-- The method of a node with the parameters that are open in it. -/
def Node.key (n : Node) : WalkKey := (n.2, n.1.openParameters)

/-- A state of the walk without the way that led to it. -/
def WalkState.node (s : WalkState) : Node := (s.target, s.context)

/-- Where a call reference starts. -/
def CallReference.node (call : CallReference) : Node := (call.target, call.entry)

namespace CallGraph

/-- One open node leads to another through a call site: the site's arguments are substituted and the caller
takes over, unless the target stays the same and the caller does not declare its parameters. -/
def Leads (graph : CallGraph) (a b : Node) : Prop :=
  a.1.isOpen = true ∧ ∃ site ∈ graph.callersOf a.2,
    b = (a.1.subst site.bindings, site.caller) ∧
    ¬ (a.1.subst site.bindings = a.1 ∧ ¬ site.caller.ownsAll a.1.openParameters)

instance (graph : CallGraph) (a b : Node) : Decidable (graph.Leads a b) :=
  inferInstanceAs (Decidable (_ ∧ ∃ site ∈ graph.callersOf a.2, _ ∧ ¬ (_ ∧ ¬ _)))

/-- A chain of steps to a closed target, with the keys of the open nodes in their order. -/
inductive Route (graph : CallGraph) : Node → List WalkKey → TypeRef → Prop where
  | closed {n : Node} {ref : TypeRef} : n.1.closed? = some ref → Route graph n [] ref
  | step {n m : Node} {keys : List WalkKey} {ref : TypeRef} :
      graph.Leads n m → Route graph m keys ref → Route graph n (n.key :: keys) ref

/-- One method is called by another. -/
def CalledBy (graph : CallGraph) (callee caller : MethodId) : Prop :=
  ∃ site ∈ graph.callersOf callee, site.caller = caller

/-- No method is among its own callers, their callers and so on. -/
def Acyclic (graph : CallGraph) : Prop := ∀ m, ¬ Relation.TransGen graph.CalledBy m m

/-- Every argument that a call site binds is a bare parameter or closed. -/
def BindsFlat (graph : CallGraph) : Prop :=
  ∀ m, ∀ site ∈ graph.callersOf m, ∀ pair ∈ site.bindings, pair.2.IsFlat

/-! ## Single steps -/

/-- A state's successors are the nodes that its node leads to, each with the longer path. -/
theorem mem_successors_iff {graph : CallGraph} {s t : WalkState} (hopen : s.target.isOpen = true) :
    t ∈ graph.successors s ↔ graph.Leads s.node t.node ∧ t.path = s.key :: s.path := by
  constructor
  · intro h
    obtain ⟨site, hsite, ht⟩ := List.mem_filterMap.mp h
    simp only [WalkState.through] at ht
    split at ht
    · exact absurd ht (by simp)
    · rename_i hkeep
      obtain rfl := Option.some.inj ht
      exact ⟨⟨hopen, site, hsite, rfl, hkeep⟩, rfl⟩
  · rintro ⟨⟨-, site, hsite, hnode, hkeep⟩, hpath⟩
    refine List.mem_filterMap.mpr ⟨site, hsite, ?_⟩
    obtain ⟨target, context, path⟩ := t
    obtain ⟨rfl, rfl⟩ := Prod.mk.inj hnode
    simp only at hpath
    subst hpath
    exact if_neg hkeep

theorem Leads.calledBy {graph : CallGraph} {a b : Node} (h : graph.Leads a b) :
    graph.CalledBy a.2 b.2 := by
  obtain ⟨-, site, hsite, rfl, -⟩ := h
  exact ⟨site, hsite, rfl⟩

theorem calledBy_of_leads {graph : CallGraph} {a b : Node} (h : Relation.TransGen graph.Leads a b) :
    Relation.TransGen graph.CalledBy a.2 b.2 :=
  Relation.TransGen.lift Prod.snd (fun _ _ => Leads.calledBy) _ _ h

theorem BindsFlat.of_sites {graph : CallGraph}
    (h : ∀ site ∈ graph.sites, ∀ pair ∈ site.bindings, pair.2.IsFlat) : graph.BindsFlat :=
  fun _ site hsite => h site (mem_sites_of_mem_callersOf hsite)

/-- Under flat bindings a chain of steps is one flat replacement. -/
theorem BindsFlat.exists_replace {graph : CallGraph} (hflat : graph.BindsFlat) {a b : Node}
    (h : Relation.TransGen graph.Leads a b) :
    ∃ f : Parameter → TypeArg, (∀ p, (f p).IsFlat) ∧ b.1 = a.1.replace f := by
  have step : ∀ {a b : Node}, graph.Leads a b →
      ∃ f : Parameter → TypeArg, (∀ p, (f p).IsFlat) ∧ b.1 = a.1.replace f := by
    rintro a b ⟨-, site, hsite, rfl, -⟩
    refine ⟨site.bindings.apply, fun p => ?_, TypeArg.subst_eq_replace site.bindings a.1⟩
    unfold Bindings.apply
    cases hp : site.bindings.get? p with
    | none => exact .inl ⟨p, rfl⟩
    | some arg => exact hflat a.2 site hsite (p, arg) (Bindings.mem_of_get? hp)
  induction h with
  | single hab => exact step hab
  | tail _ hbc ih =>
    obtain ⟨f, hf, hb⟩ := ih
    obtain ⟨g, hg, hc⟩ := step hbc
    refine ⟨fun p => (f p).replace g, fun p => (hf p).replace hg, ?_⟩
    rw [hc, hb, TypeArg.replace_replace]

/-- **Where a key comes back unchanged.** If calls do not recurse, a chain never meets a key again; if
bindings are flat, it meets it only at the same node. -/
theorem eq_of_key_eq {graph : CallGraph} (hgraph : graph.Acyclic ∨ graph.BindsFlat) {a b : Node}
    (h : Relation.TransGen graph.Leads a b) (hkey : b.key = a.key) : b = a := by
  obtain ⟨hcontext, hparams⟩ := Prod.mk.inj hkey
  rcases hgraph with hacyclic | hflat
  · have hcalls := calledBy_of_leads h
    rw [hcontext] at hcalls
    exact absurd hcalls (hacyclic a.2)
  · obtain ⟨f, hf, hb⟩ := hflat.exists_replace h
    -- the chain is one flat replacement, and it keeps the open parameters
    refine Prod.ext ?_ hcontext
    rw [hb] at hparams ⊢
    exact TypeArg.replace_eq_self_of_openParameters_eq hf hparams

/-! ## Routes clear of a path -/

/-- From a state a route leads to `ref` that meets no key twice and none of the state's path. -/
def ClearFrom (graph : CallGraph) (s : WalkState) (ref : TypeRef) : Prop :=
  ∃ keys, graph.Route s.node keys ref ∧ keys.Nodup ∧ keys.Disjoint s.path

theorem clearFrom_iff_of_closed {graph : CallGraph} {s : WalkState} {ref ref' : TypeRef}
    (h : s.target.closed? = some ref') : graph.ClearFrom s ref ↔ ref = ref' := by
  constructor
  · rintro ⟨keys, hroute, -, -⟩
    cases hroute with
    | closed hend => exact Option.some.inj (hend.symm.trans h)
    | step hlead _ =>
      have hclosed := (TypeArg.closed?_eq_some_iff.mp h).1
      exact absurd (hlead.1.symm.trans hclosed) (by decide)
  · rintro rfl
    exact ⟨[], .closed h, List.nodup_nil, List.disjoint_nil_left _⟩

theorem Route.of_open {graph : CallGraph} {s : WalkState} {keys : List WalkKey} {ref : TypeRef}
    (hroute : graph.Route s.node keys ref) (hopen : s.target.isOpen = true) :
    ∃ t rest, t ∈ graph.successors s ∧ keys = s.key :: rest ∧ graph.Route t.node rest ref := by
  cases hroute with
  | closed hend =>
    have hclosed := (TypeArg.closed?_eq_some_iff.mp hend).1
    exact absurd (hopen.symm.trans hclosed) (by decide)
  | @step _ m rest _ hlead hrest =>
    refine ⟨⟨m.1, m.2, s.key :: s.path⟩, rest, ?_, rfl, hrest⟩
    exact (mem_successors_iff hopen).mpr ⟨hlead, rfl⟩

theorem not_clearFrom_of_key_mem {graph : CallGraph} {s : WalkState} {ref : TypeRef}
    (hopen : s.target.isOpen = true) (hkey : s.key ∈ s.path) : ¬ graph.ClearFrom s ref := by
  rintro ⟨keys, hroute, -, hclear⟩
  obtain ⟨t, rest, -, rfl, -⟩ := hroute.of_open hopen
  exact hclear List.mem_cons_self hkey

/-- What can be walked from a fresh state is what can be walked from its successors. -/
theorem clearFrom_iff_of_fresh {graph : CallGraph} {s : WalkState} {ref : TypeRef}
    (hopen : s.target.isOpen = true) (hkey : s.key ∉ s.path) :
    graph.ClearFrom s ref ↔ ∃ t ∈ graph.successors s, graph.ClearFrom t ref := by
  constructor
  · rintro ⟨keys, hroute, hnodup, hclear⟩
    obtain ⟨t, rest, ht, rfl, hrest⟩ := hroute.of_open hopen
    obtain ⟨hnot, hnodup⟩ := List.nodup_cons.mp hnodup
    refine ⟨t, ht, rest, hrest, hnodup, ?_⟩
    rw [((mem_successors_iff hopen).mp ht).2, List.disjoint_cons_right]
    exact ⟨hnot, (List.disjoint_cons_left.mp hclear).2⟩
  · rintro ⟨t, ht, rest, hrest, hnodup, hclear⟩
    obtain ⟨hlead, hpath⟩ := (mem_successors_iff hopen).mp ht
    rw [hpath, List.disjoint_cons_right] at hclear
    refine ⟨s.key :: rest, .step hlead hrest, List.nodup_cons.mpr ⟨hclear.1, hnodup⟩, ?_⟩
    exact List.disjoint_cons_left.mpr ⟨hkey, hclear.2⟩

end CallGraph

end JobClosure
