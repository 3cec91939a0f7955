import JobClosure.Proofs.CallSite.Order
import JobClosure.Proofs.CallSite.Workshop
import JobClosure.Proofs.Instantiation.Memo
import JobClosure.Proofs.Instantiation.Union
import Mathlib

/-!
# Modules in another order

In another order of the modules a scan finds the same call references and the same call sites, in another
order. Routes do not depend on the order of the sites, so the targets that routes without repeated keys lead
to are the same. What is resolved may still differ, for two reasons. A walk takes the callers of a method in
the order of the graph, and what it remembers as expanded can make it miss a target (`Walk.Shadowed`). And
of several call references with one key only the first is kept, though the key does not always tell their
methods apart.

A target that can be missed for one of these reasons is **contested** (`ScanResult.Contested`). Two orders
give the same list exactly if they agree on the contested targets (`instantiations_perm_iff`).
-/

namespace JobClosure

/-! ## Graphs with the same callers -/

namespace CallGraph

/-- The same sites call every method, in any order. -/
def SameCallers (graph graph' : CallGraph) : Prop := ∀ m site, site ∈ graph.callersOf m ↔ site ∈ graph'.callersOf m

variable {graph graph' : CallGraph}

theorem sameCallers_of_perm {sites sites' : List CallSite} (h : sites.Perm sites') :
    (ofSites sites).SameCallers (ofSites sites') := by
  intro m site
  rw [mem_callersOf_ofSites, mem_callersOf_ofSites, h.mem_iff]

theorem SameCallers.leads (h : graph.SameCallers graph') {a b : Node} (hlead : graph.Leads a b) :
    graph'.Leads a b := by
  obtain ⟨hopen, site, hsite, hnode, hkeep⟩ := hlead
  exact ⟨hopen, site, (h _ _).mp hsite, hnode, hkeep⟩

theorem SameCallers.route (h : graph.SameCallers graph') {n : Node} {keys : List WalkKey} {ref : TypeRef}
    (hroute : graph.Route n keys ref) : graph'.Route n keys ref := by
  induction hroute with
  | closed hend => exact .closed hend
  | step hlead _ ih => exact .step (h.leads hlead) ih

theorem SameCallers.acyclic (h : graph.SameCallers graph') (hacyclic : graph.Acyclic) : graph'.Acyclic := by
  have hcalls : graph'.CalledBy ≤ graph.CalledBy := by
    rintro callee caller ⟨site, hsite, hcaller⟩
    exact ⟨site, (h _ _).mpr hsite, hcaller⟩
  exact fun m hcycle => hacyclic m (Relation.TransGen.mono hcalls m m hcycle)

theorem SameCallers.bindsFlat (h : graph.SameCallers graph') (hflat : graph.BindsFlat) : graph'.BindsFlat :=
  fun m site hsite => hflat m site ((h _ _).mpr hsite)

end CallGraph

/-! ## What there is to be found -/

namespace ScanResult

/-- A target at the end of a route without repeated keys from some call reference. -/
def Ends (raw : ScanResult) (ref : TypeRef) : Prop :=
  ∃ call ∈ raw.calls, ∃ keys, raw.graph.Route call.node keys ref ∧ keys.Nodup

/-- A target that can be missed: it is shadowed for a call reference that is kept, or it belongs to one that
is dropped for another with the same key. -/
def Contested (raw : ScanResult) (ref : TypeRef) : Prop :=
  (∃ call ∈ raw.dedupeCalls.calls, Walk.Shadowed raw.graph call ref) ∨
    ∃ call ∈ raw.calls, ∃ kept ∈ raw.dedupeCalls.calls, kept.key = call.key ∧ kept.node ≠ call.node
      ∧ ∃ keys, raw.graph.Route call.node keys ref ∧ keys.Nodup

/-- Call references with one key stand for one target in one method. -/
def KeysTell (raw : ScanResult) : Prop :=
  ∀ call ∈ raw.calls, ∀ call' ∈ raw.calls, call.key = call'.key → call.node = call'.node

variable {raw raw' : ScanResult}

theorem mem_calls_of_dedupeCalls {call : CallReference} (h : call ∈ raw.dedupeCalls.calls) : call ∈ raw.calls :=
  mem_of_mem_distinctBy h

theorem exists_kept {call : CallReference} (h : call ∈ raw.calls) :
    ∃ kept ∈ raw.dedupeCalls.calls, kept.key = call.key :=
  exists_mem_distinctBy h

theorem Perm.sameCallers (h : raw.Perm raw') : raw.graph.SameCallers raw'.graph :=
  CallGraph.sameCallers_of_perm h.callSites

theorem Perm.symm (h : raw.Perm raw') : raw'.Perm raw := ⟨h.calls.symm, h.callSites.symm, h.diagnostics.symm⟩

/-- **The ends of routes do not depend on the order of the finds.** -/
theorem Perm.ends (h : raw.Perm raw') {ref : TypeRef} (hend : raw.Ends ref) : raw'.Ends ref := by
  obtain ⟨call, hcall, keys, hroute, hnodup⟩ := hend
  exact ⟨call, h.calls.mem_iff.mp hcall, keys, h.sameCallers.route hroute, hnodup⟩

theorem Perm.keysTell (h : raw.Perm raw') (htell : raw.KeysTell) : raw'.KeysTell :=
  fun call hcall call' hcall' => htell call (h.calls.mem_iff.mpr hcall) call' (h.calls.mem_iff.mpr hcall')

/-- A target that some kept call reference is resolved to. -/
def Found (raw : ScanResult) (index : Index) (ref : TypeRef) : Prop :=
  ∃ call ∈ raw.dedupeCalls.calls, (⟨index, raw.graph⟩ : Resolver).Reaches call ref

/-- What is found is at the end of a route. -/
theorem Found.ends {index : Index} {ref : TypeRef} (h : raw.Found index ref) : raw.Ends ref := by
  obtain ⟨call, hcall, s, hs, hend⟩ := h
  exact ⟨call, mem_calls_of_dedupeCalls hcall, Walk.mem_plainRun_iff.mp (hs.closed_mem_plainRun hend)⟩

/-- **Only contested targets can be missed.** -/
theorem Ends.found_or_contested {index : Index} {ref : TypeRef} (h : raw.Ends ref) :
    raw.Found index ref ∨ raw.Contested ref := by
  obtain ⟨call, hcall, keys, hroute, hnodup⟩ := h
  obtain ⟨kept, hkept, hkey⟩ := exists_kept hcall
  by_cases hnode : kept.node = call.node
  · rw [← hnode] at hroute
    rcases Walk.Pops.end_or_shadowed hnodup _ Walk.pops_start hroute (List.disjoint_nil_right _) with
      ⟨t, ht, hend⟩ | hshadowed
    · exact .inl ⟨kept, hkept, t, ht, hend⟩
    · exact .inr (.inl ⟨kept, hkept, hshadowed⟩)
  · exact .inr (.inr ⟨call, hcall, kept, hkept, hkey, hnode, keys, hroute, hnodup⟩)

/-- Where keys tell call references apart, and calls do not recurse or bindings are flat, nothing is missed. -/
theorem Ends.found {index : Index} {ref : TypeRef} (h : raw.Ends ref) (htell : raw.KeysTell)
    (hgraph : raw.graph.Acyclic ∨ raw.graph.BindsFlat) : raw.Found index ref := by
  obtain ⟨call, hcall, keys, hroute, -⟩ := h
  obtain ⟨kept, hkept, hkey⟩ := exists_kept hcall
  rw [← htell kept (mem_calls_of_dedupeCalls hkept) call hcall hkey] at hroute
  exact ⟨kept, hkept, Walk.Pops.exists_end hgraph hroute _ Walk.pops_start rfl⟩

end ScanResult

/-! ## What is resolved -/

/-- What is found in modules before call references with one key are kept once. -/
def finds (marker : String) (modules : List Module) : Except Error ScanResult :=
  (Scanner.scanEach ⟨Index.ofModules modules, marker⟩ {} modules).1

section

variable {marker : String} {modules modules' : List Module} {raw raw' : ScanResult}

theorem survey_eq_map (marker : String) (modules : List Module) :
    survey marker modules = (finds marker modules).map ScanResult.dedupeCalls := rfl

/-- The list that is resolved from the finds: sorted, without repetitions, and no two members are spelled
alike. -/
theorem instantiations_of_finds (h : finds marker modules = .ok raw) :
    ∃ refs, instantiations marker modules = .ok refs ∧ refs.Nodup
      ∧ refs.Pairwise (fun a b => a.spell ≤ b.spell) ∧ (∀ a ∈ refs, ∀ b ∈ refs, a.spell = b.spell → a = b)
      ∧ ∀ ref, ref ∈ refs ↔ raw.Found (Index.ofModules modules) ref := by
  obtain ⟨refs, hrefs, hnodup, hsorted, hmem⟩ :=
    (⟨Index.ofModules modules, raw.graph⟩ : Resolver).resolve_answers raw.dedupeCalls.calls
  have hresult : instantiations marker modules = .ok refs :=
    (instantiations_of_survey (by rw [survey_eq_map, h]; rfl)).trans hrefs
  have hfound : ∀ ref, ref ∈ refs ↔ raw.Found (Index.ofModules modules) ref := hmem
  refine ⟨refs, hresult, hnodup, hsorted, fun a ha b hb hspell => ?_, hfound⟩
  have hcomes : raw.ComesFrom ⟨Index.ofModules modules, marker⟩ fun _ _ => True :=
    Scanner.comesFrom_scanEach (fun _ _ _ _ _ _ => trivial) h
  have hgrammatical := hcomes.grammatical
  obtain ⟨call, hcall, keys, hroute, -⟩ := ((hfound a).mp ha).ends
  obtain ⟨call', hcall', keys', hroute', -⟩ := ((hfound b).mp hb).ends
  exact hgrammatical.spell_injOn hcall hcall' hroute hroute' hspell

/-- **Instantiations are made of names of the grammar.** -/
theorem grammatical_of_instantiations {refs : List TypeRef} (h : instantiations marker modules = .ok refs) :
    ∀ ref ∈ refs, ref.toArg.Grammatical := by
  cases hraw : finds marker modules with
  | error error =>
    rw [instantiations, survey_eq_map, hraw] at h
    cases h
  | ok raw =>
    obtain ⟨_, hresult, -, -, -, hfound⟩ := instantiations_of_finds hraw
    obtain rfl := Except.ok.inj (h.symm.trans hresult)
    have hcomes : raw.ComesFrom ⟨Index.ofModules modules, marker⟩ fun _ _ => True :=
      Scanner.comesFrom_scanEach (fun _ _ _ _ _ _ => trivial) hraw
    intro ref href
    obtain ⟨call, hcall, keys, hroute, -⟩ := ((hfound ref).mp href).ends
    exact hcomes.grammatical.of_route hroute (hcomes.grammatical.calls call hcall)

theorem instantiations_of_finds_error {error : Error} (h : finds marker modules = .error error) :
    instantiations marker modules = .error error := by
  rw [instantiations, survey_eq_map, h]
  rfl

/-- Two lists of what is resolved are the same if they have the same members. -/
theorem eq_of_found_iff (h : finds marker modules = .ok raw) (h' : finds marker modules' = .ok raw')
    {refs refs' : List TypeRef} (hrefs : instantiations marker modules = .ok refs)
    (hrefs' : instantiations marker modules' = .ok refs') (hmem : ∀ ref, ref ∈ refs ↔ ref ∈ refs') : refs = refs' := by
  obtain ⟨_, hresult, hnodup, hsorted, hspell, -⟩ := instantiations_of_finds h
  obtain ⟨_, hresult', hnodup', hsorted', -, -⟩ := instantiations_of_finds h'
  obtain rfl := Except.ok.inj (hrefs.symm.trans hresult)
  obtain rfl := Except.ok.inj (hrefs'.symm.trans hresult')
  exact Resolver.eq_of_mem_iff hnodup hnodup' hsorted hsorted' hspell hmem

theorem finds_perm (h : DeclaredOnce modules) (hperm : modules.Perm modules')
    (hraw : finds marker modules = .ok raw) : ∃ raw', finds marker modules' = .ok raw' ∧ raw.Perm raw' := by
  have hagrees : Scanner.Agrees anyName ⟨Index.ofModules modules, marker⟩ ⟨Index.ofModules modules', marker⟩ :=
    ⟨Index.agrees_of_perm h hperm, rfl⟩
  refine hagrees.scanEach_perm hperm (fun m hm => ?_) hraw
  rw [Index.typesOf_ofModules h.identities hm, Index.typesOf_ofModules (h.perm hperm).identities (hperm.mem_iff.mp hm)]

end

/--
**When the order of the modules makes no difference.**

Let the modules of a list have identities of their own and declare no type name twice. In another order of
the modules either both scans fail, or both succeed with the same finds in another order. Then the two lists
of instantiations are equal if and only if they agree on the contested targets. In particular they are equal
if keys tell the call references apart and calls do not recurse, or bind nothing but bare parameters and
closed arguments.
-/
theorem instantiations_perm_iff {modules modules' : List Module} (hmodules : DeclaredOnce modules)
    (hperm : modules.Perm modules') (marker : String) :
    (∃ error error', instantiations marker modules = .error error
        ∧ instantiations marker modules' = .error error')
      ∨ ∃ raw raw' refs refs', finds marker modules = .ok raw ∧ finds marker modules' = .ok raw' ∧ raw.Perm raw'
        ∧ instantiations marker modules = .ok refs ∧ instantiations marker modules' = .ok refs'
        ∧ (refs = refs' ↔ ∀ ref, raw.Contested ref ∨ raw'.Contested ref → (ref ∈ refs ↔ ref ∈ refs'))
        ∧ (raw.KeysTell → raw.graph.Acyclic ∨ raw.graph.BindsFlat → refs = refs') := by
  cases hraw : finds marker modules with
  | error error =>
    refine .inl ⟨error, ?_⟩
    cases hraw' : finds marker modules' with
    | error error' => exact ⟨error', instantiations_of_finds_error hraw, instantiations_of_finds_error hraw'⟩
    | ok raw' =>
      obtain ⟨raw, hsame, -⟩ := finds_perm (hmodules.perm hperm) hperm.symm hraw'
      exact nomatch hraw.symm.trans hsame
  | ok raw =>
    obtain ⟨raw', hraw', hfinds⟩ := finds_perm hmodules hperm hraw
    obtain ⟨refs, hrefs, -, -, -, hmem⟩ := instantiations_of_finds hraw
    obtain ⟨refs', hrefs', -, -, -, hmem'⟩ := instantiations_of_finds hraw'
    refine .inr ⟨raw, raw', refs, refs', rfl, hraw', hfinds, hrefs, hrefs', ⟨?_, ?_⟩, ?_⟩
    · rintro rfl ref -
      exact Iff.rfl
    · intro hagree
      refine eq_of_found_iff hraw hraw' hrefs hrefs' fun ref => ?_
      by_cases hcontested : raw.Contested ref ∨ raw'.Contested ref
      · exact hagree ref hcontested
      · -- what nobody contests is found in both orders, if it is there at all
        obtain ⟨hleft, hright⟩ := not_or.mp hcontested
        rw [hmem, hmem']
        exact ⟨fun h => (hfinds.ends h.ends).found_or_contested.resolve_right hright,
          fun h => (hfinds.symm.ends h.ends).found_or_contested.resolve_right hleft⟩
    · -- if keys tell the calls apart, what can be reached in one order is found in the other
      intro htell hgraph
      have hgraph' : raw'.graph.Acyclic ∨ raw'.graph.BindsFlat :=
        hgraph.imp hfinds.sameCallers.acyclic hfinds.sameCallers.bindsFlat
      refine eq_of_found_iff hraw hraw' hrefs hrefs' fun ref => ?_
      rw [hmem, hmem']
      exact ⟨fun h => (hfinds.ends h.ends).found (hfinds.keysTell htell) hgraph',
        fun h => (hfinds.symm.ends h.ends).found htell hgraph⟩

/-! ## A target that is found in one order only -/

namespace Reordering

open Workshop (shop declaring made own passing work jobFor)

def entry : Workshop.Worker := { Workshop.run with name := "Entry" }

/-- `Ping` passes its parameter on to `Entry`, and to `Pong` inside a list. -/
def ping : Workshop.Worker where
  name := "Ping"
  genericParams := ["U"]
  tasks := [.call "Work" "Entry" "!!U", .call "Other" "Pong" "List<!!U>"]

/-- `Pong` passes its parameter on to `Entry` and back to `Ping`. -/
def pong : Workshop.Worker where
  name := "Pong"
  genericParams := ["U"]
  tasks := [.call "Work" "Entry" "!!U", .call "Work" "Ping" "!!U"]

def main : Workshop.Worker where
  name := "Main"
  tasks := [.call "Work" "Ping" "Int"]

def left : Module := shop "Left" [("Work", [entry, ping, main])]

def right : Module where
  name := "Right"
  types := [declaring "Right" "Other" [pong]]

def job : CallReference := made (work "Entry")

def leftSites : List CallSite :=
  [ passing (work "Ping") (work "Entry") (.param (own (work "Ping"))),
    passing (work "Ping") ⟨"Other", "Pong", []⟩ (.named "List" [.param (own (work "Ping"))]),
    passing (work "Main") (work "Ping") (.named "Int" []) ]

def rightSites : List CallSite :=
  [ passing ⟨"Other", "Pong", []⟩ (work "Entry") (.param (own ⟨"Other", "Pong", []⟩)),
    passing ⟨"Other", "Pong", []⟩ (work "Ping") (.param (own ⟨"Other", "Pong", []⟩)) ]

theorem finds_leftRight : finds "job" [left, right] = .ok { calls := [job], callSites := leftSites ++ rightSites } := by
  cbv

theorem finds_rightLeft : finds "job" [right, left] = .ok { calls := [job], callSites := rightSites ++ leftSites } := by
  cbv

/-- The target that both orders find. -/
def short : TypeRef := jobFor (.named "Int" [])

/-- The target at the end of the route from `Entry` over `Pong` and `Ping` to `Main`. -/
def long : TypeRef := jobFor (.named "List" [.named "Int" []])

theorem comesTo_leftRight : Walk.ComesTo (.ofSites (leftSites ++ rightSites)) job [short] := ⟨6, by decide, by decide⟩

theorem comesTo_rightLeft : Walk.ComesTo (.ofSites (rightSites ++ leftSites)) job [long, short] :=
  ⟨8, by decide, by decide⟩

theorem instantiations_leftRight : instantiations "job" [left, right] = .ok [short] := by
  have hsurvey : survey "job" [left, right] = .ok { calls := [job], callSites := leftSites ++ rightSites } := by
    rw [survey_eq_map, finds_leftRight]
    rfl
  rw [instantiations_of_single_targets hsurvey (.cons comesTo_leftRight .nil)]
  exact congrArg Except.ok (Resolver.sortBySpelling_singleton short)

theorem instantiations_rightLeft : instantiations "job" [right, left] = .ok [short, long] := by
  have hsurvey : survey "job" [right, left] = .ok { calls := [job], callSites := rightSites ++ leftSites } := by
    rw [survey_eq_map, finds_rightLeft]
    rfl
  have hresolved := @Resolver.resolve_of_comesTo ⟨Index.ofModules [right, left], .ofSites (rightSites ++ leftSites)⟩
    _ _ (.cons comesTo_rightLeft .nil)
  have hspell : short.spell ≤ long.spell ∧ ¬ long.spell ≤ short.spell := by decide
  have hkept : distinctBy id [short, long] = [short, long] := by decide
  rw [List.flatMap_singleton, Resolver.sortBySpelling_pair, if_neg hspell.2, hkept, Resolver.sortBySpelling_pair,
    if_pos hspell.1] at hresolved
  exact (instantiations_of_survey hsurvey).trans hresolved

theorem declaredOnce : DeclaredOnce [left, right] where
  identities := by decide
  names := by decide

/-- **The order of two modules makes a difference.** With the sites of `Ping` first, the walk comes to `Pong`
by way of `Ping` and cannot return there; it skips `Pong` when it comes to it straight from `Entry`. -/
theorem long_missed : DeclaredOnce [left, right] ∧ [left, right].Perm [right, left]
    ∧ instantiations "job" [left, right] = .ok [short] ∧ instantiations "job" [right, left] = .ok [short, long]
    ∧ instantiations "job" [left, right] ≠ instantiations "job" [right, left] := by
  refine ⟨declaredOnce, List.Perm.swap right left [], instantiations_leftRight, instantiations_rightLeft, ?_⟩
  rw [instantiations_leftRight, instantiations_rightLeft]
  intro hsame
  exact absurd (Except.ok.inj hsame) (by decide)

/-- The two orders disagree on a contested target. -/
theorem exists_contested : DeclaredOnce [left, right] ∧ [left, right].Perm [right, left]
    ∧ ∃ raw raw', finds "job" [left, right] = .ok raw ∧ finds "job" [right, left] = .ok raw'
      ∧ ∃ ref, (raw.Contested ref ∨ raw'.Contested ref) ∧ ¬ (ref ∈ [short] ↔ ref ∈ [short, long]) := by
  have hperm : [left, right].Perm [right, left] := List.Perm.swap right left []
  refine ⟨declaredOnce, hperm, ?_⟩
  rcases instantiations_perm_iff declaredOnce hperm "job" with ⟨_, _, hfail, -⟩ |
    ⟨raw, raw', refs, refs', hraw, hraw', -, hrefs, hrefs', hiff, -⟩
  · exact nomatch hfail.symm.trans instantiations_leftRight
  · obtain rfl := Except.ok.inj (hrefs.symm.trans instantiations_leftRight)
    obtain rfl := Except.ok.inj (hrefs'.symm.trans instantiations_rightLeft)
    refine ⟨raw, raw', hraw, hraw', ?_⟩
    by_contra hnone
    have hsame := hiff.mpr fun ref hcontested => by
      by_contra hdiffer
      exact hnone ⟨ref, hcontested, hdiffer⟩
    exact absurd hsame (by decide)

end Reordering

end JobClosure
