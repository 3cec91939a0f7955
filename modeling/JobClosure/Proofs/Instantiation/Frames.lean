import JobClosure.Proofs.CallSite.Graph
import JobClosure.Proofs.CallSite.Ownership
import JobClosure.Proofs.Instantiation.Answer
import Mathlib

/-!
# Parameters and frames

A walk expresses its target in terms of one method at a time. When it goes on to a caller, the parameters in
the target should all be the caller's, for those that the call site does not bind have no meaning there.

The walk checks this only where a call site leaves the target as it is. A site that binds some of the
parameters in the target is followed whatever becomes of the others. A state **leaks** through such a site
if the caller does not own what is left open. Nothing else brings a foreign parameter into a walk
(`leaksThrough_iff`), so parameters keep to their frames exactly when no state leaks
(`Resolver.scanned_owned_iff`). A parameter that has leaked can be bound later, by a site that has to do
with another call (`Leak.text_leaked`).
-/

namespace JobClosure

theorem MethodId.ownsAll_iff {m : MethodId} {arg : TypeArg} :
    m.ownsAll arg.openParameters = true ↔ m.OwnsIn arg := by
  unfold MethodId.ownsAll MethodId.OwnsIn MethodId.Owns
  simp only [List.all_eq_true, TypeArg.mem_openParameters, beq_iff_eq]

namespace WalkState

/-- A call site binds something in the target, and leaves something open that its caller does not own. -/
def LeaksThrough (s : WalkState) (site : CallSite) : Prop :=
  s.target.subst site.bindings ≠ s.target ∧
    ∃ p ∈ s.target.openParameters, site.bindings.get? p = none ∧ ¬ site.caller.Owns p

instance (s : WalkState) (site : CallSite) : Decidable (s.LeaksThrough site) :=
  inferInstanceAs (Decidable (_ ∧ ∃ p ∈ s.target.openParameters, _ ∧ ¬ _))

/-- **Foreign parameters come from leaks.** If a call site's arguments are in terms of its caller, it leads to
a target that is not in terms of the caller exactly when the state leaks through it. -/
theorem leaksThrough_iff {s : WalkState} {site : CallSite} (hsite : site.Owned) :
    s.LeaksThrough site ↔ ∃ t, s.through site = some t ∧ ¬ t.context.OwnsIn t.target := by
  constructor
  · -- a parameter that the site does not bind stays in the target as it is
    rintro ⟨hchanged, p, hp, hunbound, hforeign⟩
    have hthrough : s.through site
        = some ⟨s.target.subst site.bindings, site.caller, s.key :: s.path⟩ :=
      if_neg fun h => hchanged h.1
    refine ⟨_, hthrough, fun howned => hforeign (howned p ?_)⟩
    rw [TypeArg.subst_eq_replace]
    refine TypeArg.mem_occurrences_replace.mpr ⟨p, TypeArg.mem_openParameters.mp hp, ?_⟩
    rw [Bindings.apply, hunbound]
    exact List.mem_singleton_self p
  · rintro ⟨t, hthrough, hforeign⟩
    unfold through at hthrough
    dsimp only at hthrough
    split at hthrough
    · exact nomatch hthrough
    · rename_i hkeep
      obtain rfl := Option.some.inj hthrough
      refine ⟨fun hsame => ?_, ?_⟩
      · -- a site that changes nothing is followed only if the caller owns everything
        have howned : site.caller.ownsAll s.target.openParameters = true := by
          by_contra hnot
          exact hkeep ⟨hsame, hnot⟩
        rw [MethodId.ownsAll_iff, ← hsame] at howned
        exact hforeign howned
      · by_contra hnone
        -- if every foreign parameter is bound, all that is left comes from the arguments of the site
        refine hforeign fun q hq => ?_
        rw [TypeArg.subst_eq_replace] at hq
        obtain ⟨p, hp, hq⟩ := TypeArg.mem_occurrences_replace.mp hq
        unfold Bindings.apply at hq
        cases hget : site.bindings.get? p with
        | some arg =>
          rw [hget] at hq
          exact hsite.caller (p, arg) (Bindings.mem_of_get? hget) q hq
        | none =>
          rw [hget] at hq
          obtain rfl := List.mem_singleton.mp hq
          by_contra hq'
          exact hnone ⟨q, TypeArg.mem_openParameters.mpr hp, hget, hq'⟩

end WalkState

namespace Walk

variable {graph : CallGraph} {call : CallReference}

/-- A walk that starts in its frame leaves it only where a state of this frame leaks. -/
theorem pops_owned_iff (hsites : ∀ m, ∀ site ∈ graph.callersOf m, site.Owned)
    (hcall : call.entry.OwnsIn call.target) :
    (∀ s, Pops graph call s → s.context.OwnsIn s.target) ↔
      ∀ s, Expands graph call s → s.context.OwnsIn s.target →
        ∀ site ∈ graph.callersOf s.context, ¬ s.LeaksThrough site := by
  constructor
  · intro howned s hexp _ site hsite hleak
    obtain ⟨t, hthrough, hforeign⟩ := (WalkState.leaksThrough_iff (hsites _ site hsite)).mp hleak
    have ht : t ∈ graph.successors s := List.mem_filterMap.mpr ⟨site, hsite, hthrough⟩
    exact hforeign (howned t (hexp.pops_successor ht))
  · intro hkeeps s hs
    refine hs.invariant (P := fun s => s.context.OwnsIn s.target) hcall ?_
    intro s hexp hs t ht
    obtain ⟨site, hsite, hthrough⟩ := List.mem_filterMap.mp ht
    by_contra hforeign
    have hleak := (WalkState.leaksThrough_iff (hsites _ site hsite)).mpr ⟨t, hthrough, hforeign⟩
    exact hkeeps s hexp hs site hsite hleak

end Walk

namespace Resolver

/--
**When parameters keep to their frames.**

In the scan of loaded modules every call reference is in terms of the method it stands in. Every call site
binds parameters of the method that it calls, to arguments in terms of the method that it stands in. So when
a call reference is resolved over these sites, all open parameters of every state that is popped are owned by
the state's method, if and only if no state leaks whose parameters still are.
-/
theorem scanned_owned_iff {modules : List Module} {marker : String} {state : ScanState}
    {found : ScanResult} {call : CallReference} (hloaded : ∀ m ∈ modules, m.Loaded)
    (hscan : (Scanner.scanModules ⟨Index.ofModules modules, marker⟩ state modules).1 = .ok found)
    (hcall : call ∈ found.calls) :
    call.entry.ownsAll call.target.openParameters = true
      ∧ (∀ m, ∀ site ∈ (CallGraph.ofSites found.callSites).callersOf m, ∀ pair ∈ site.bindings,
          m.Owns pair.1 ∧ site.caller.ownsAll pair.2.openParameters = true)
      ∧ ((∀ s, Walk.Pops (CallGraph.ofSites found.callSites) call s →
            s.context.ownsAll s.target.openParameters = true) ↔
          ∀ s, Walk.Expands (CallGraph.ofSites found.callSites) call s →
            s.context.ownsAll s.target.openParameters = true →
            ∀ site ∈ (CallGraph.ofSites found.callSites).callersOf s.context, ¬ s.LeaksThrough site) := by
  have howned := Scanner.scanModules_owned hloaded hscan
  have hsites : ∀ m, ∀ site ∈ (CallGraph.ofSites found.callSites).callersOf m, site.Owned :=
    fun m site hsite => howned.sites site (CallGraph.mem_callersOf_ofSites.mp hsite).1
  simp only [MethodId.ownsAll_iff]
  refine ⟨howned.calls call hcall, ?_, Walk.pops_owned_iff hsites (howned.calls call hcall)⟩
  intro m site hsite pair hpair
  have hcallee := (CallGraph.mem_callersOf_ofSites.mp hsite).2
  exact ⟨hcallee ▸ (hsites m site hsite).callee pair hpair, (hsites m site hsite).caller pair hpair⟩

end Resolver

/-! ## A parameter that leaks -/

namespace Leak

/-- `Box` has a job in terms of its own parameter and of a parameter of its method `Run`. `Hub` calls `Run`
and supplies the second only. The call of `Hub` by another method of `Box` has nothing to do with the box
that `Run` is called on. -/
def document : String := "(module \"Demo\"
  (type \"Job\" (interface) (attributes \"job\"))
  (type \"Pair\" (generic \"A\" \"B\") (interfaces \"Job\"))
  (type \"Box\" (generic \"T\")
    (method \"Run\" (generic \"U\") (body (newobj \"Pair<!T, !!U>\")))
    (method \"Go\" (body (call \"Hub\" \"Go\"))))
  (type \"Hub\" (method \"Go\" (body (call \"Box\" \"Run\" (\"Int\")))))
  (type \"Main\" (method \"Go\" (body (call \"Box<Text>\" \"Go\")))))"

def method (type name : String) (generics : List String) (instruction : List Form) : Method :=
  ⟨⟨type, name, []⟩, generics, some [.list instruction], "Demo"⟩

def types : List TypeDef :=
  [ { fullName := "Job", isInterface := true, attributes := ["job"], module := "Demo" },
    { fullName := "Pair", genericParams := ["A", "B"], interfaces := [⟨"Job", []⟩], module := "Demo" },
    { fullName := "Box", genericParams := ["T"], module := "Demo"
      methods :=
        [ method "Box" "Run" ["U"] [.symbol "newobj", .text "Pair<!T, !!U>"],
          method "Box" "Go" [] [.symbol "call", .text "Hub", .text "Go"] ] },
    { fullName := "Hub", module := "Demo"
      methods := [method "Hub" "Go" [] [.symbol "call", .text "Box", .text "Run", .list [.text "Int"]]] },
    { fullName := "Main", module := "Demo"
      methods := [method "Main" "Go" [] [.symbol "call", .text "Box<Text>", .text "Go"]] } ]

def demo : Module := { name := "Demo", types }

set_option maxRecDepth 4000 in
theorem loaded_demo : ∀ m ∈ [demo], m.Loaded :=
  List.forall_mem_singleton.mpr (.of_characters document String.toList_ofList (by cbv))

def run : MethodId := ⟨"Box", "Run", []⟩

def go (type : String) : MethodId := ⟨type, "Go", []⟩

def ofBox : Parameter := ⟨"Box", "T", false⟩

def ofRun : Parameter := ⟨run.text, "U", true⟩

def call : CallReference := ⟨run, .named "Pair" [.param ofBox, .param ofRun], "Pair<!T, !!U>::.ctor"⟩

def found : ScanResult where
  calls := [call]
  callSites :=
    [ ⟨go "Box", go "Hub", []⟩, ⟨go "Hub", run, [(ofRun, .named "Int" [])]⟩,
      ⟨go "Main", go "Box", [(ofBox, .named "Text" [])]⟩ ]

def graph : CallGraph := .ofSites found.callSites

theorem scan_demo : (Scanner.scanModules ⟨Index.ofModules [demo], "job"⟩ {} [demo]).1 = .ok found := by cbv

/-- The target after the call by `Hub`, which does not own the parameter of `Box`. -/
def leaked : WalkState := ⟨.named "Pair" [.param ofBox, .named "Int" []], go "Hub", [(run, [ofBox, ofRun])]⟩

theorem pops_leaked : Walk.Pops graph call leaked := ⟨1, [], by decide⟩

theorem leaked_foreign : leaked.context.ownsAll leaked.target.openParameters = false := by decide

/-- A pair in which the parameter of one box was bound by a call on another. -/
def mixed : TypeRef := ⟨"Pair", [.named "Text" [], .named "Int" []]⟩

theorem comesTo_mixed : Walk.ComesTo graph call [mixed] := ⟨4, by decide, by decide⟩

/-- **A parameter leaves its frame** and is bound by the call site of another. -/
theorem text_leaked : (∀ m ∈ [demo], m.Loaded)
    ∧ (Scanner.scanModules ⟨Index.ofModules [demo], "job"⟩ {} [demo]).1 = .ok found
    ∧ call ∈ found.calls
    ∧ (∃ s, Walk.Pops (CallGraph.ofSites found.callSites) call s
        ∧ s.context.ownsAll s.target.openParameters = false)
    ∧ ((⟨Index.ofModules [demo], CallGraph.ofSites found.callSites⟩ : Resolver).resolveCall .never
        call).result = .ok [mixed] := by
  refine ⟨loaded_demo, scan_demo, List.mem_singleton_self call, ⟨leaked, pops_leaked, leaked_foreign⟩, ?_⟩
  have hresult := @Resolver.result_of_comesTo ⟨Index.ofModules [demo], graph⟩ _ _ comesTo_mixed
  rwa [Resolver.sortBySpelling_singleton] at hresult

/-- The state that leaks is the first one. -/
theorem exists_leak : (∀ m ∈ [demo], m.Loaded)
    ∧ (Scanner.scanModules ⟨Index.ofModules [demo], "job"⟩ {} [demo]).1 = .ok found
    ∧ call ∈ found.calls
    ∧ ∃ s, Walk.Expands graph call s ∧ s.context.ownsAll s.target.openParameters = true
        ∧ ∃ site ∈ graph.callersOf s.context, s.LeaksThrough site := by
  have hcall : call ∈ found.calls := List.mem_singleton_self call
  obtain ⟨_, _, hiff⟩ := Resolver.scanned_owned_iff loaded_demo scan_demo hcall
  refine ⟨loaded_demo, scan_demo, hcall, ?_⟩
  by_contra hnone
  have hall := hiff.mpr fun s hexp howned site hsite hleak =>
    hnone ⟨s, hexp, howned, site, hsite, hleak⟩
  have hforeign := leaked_foreign
  rw [hall leaked pops_leaked] at hforeign
  exact absurd hforeign (by decide)

end Leak

end JobClosure
