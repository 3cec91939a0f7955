import JobClosure.Proofs.CallSite.Partition
import JobClosure.Proofs.Instantiation.Shadowed

/-!
# Findings

What a scan finds is asked for in two ways only: the call references are listed and resolved, and the call sites make a
graph. Diagnostics are reported when the scan is made and play no part afterwards. What is left of a scan for later are
its **findings**.

The same type may be scanned any number of times. A type that has been scanned adds nothing to the findings, and it
fails only where it failed before (`Scanner.findings_append`).
-/

namespace JobClosure

/-- The call references and the call graph of a scan. -/
structure Findings where
  calls : List CallReference
  graph : CallGraph

/-- What is left of a scan for later. -/
def ScanResult.findings (found : ScanResult) : Findings := ⟨found.calls, found.graph⟩

namespace Scanner

/-- The findings in some types, one after the other. -/
def findings (s : Scanner) (types : List TypeDef) : Except Error Findings :=
  (fun finds => (together finds).dedupeCalls.findings) <$> types.mapM s.findsIn

variable {s : Scanner}

theorem findings_foundInAll_append {types more : List TypeDef} (h : ∀ type ∈ more, type ∈ types) :
    (s.foundInAll (types ++ more)).findings = (s.foundInAll types).findings := by
  have hcalls : (s.foundInAll (types ++ more)).calls = (s.foundInAll types).calls := by
    rw [calls_foundInAll, calls_foundInAll, List.flatMap_append]
    refine distinctBy_append_of_subset fun call hcall => List.mem_map_of_mem ?_
    obtain ⟨type, htype, hfound⟩ := List.mem_flatMap.mp hcall
    exact List.mem_flatMap.mpr ⟨type, h type htype, hfound⟩
  have hgraph : (s.foundInAll (types ++ more)).graph = (s.foundInAll types).graph := by
    rw [ScanResult.graph, ScanResult.graph, callSites_foundInAll, callSites_foundInAll, List.flatMap_append]
    refine CallGraph.ofSites_append_of_subset fun site hsite => ?_
    obtain ⟨type, htype, hfound⟩ := List.mem_flatMap.mp hsite
    exact List.mem_flatMap.mpr ⟨type, h type htype, hfound⟩
  rw [ScanResult.findings, ScanResult.findings, hcalls, hgraph]

/-- **Types that were scanned already** add nothing to the findings. -/
theorem findings_append {types more : List TypeDef} (h : ∀ type ∈ more, type ∈ types) :
    s.findings (types ++ more) = s.findings types := by
  cases hfinds : types.mapM s.findsIn with
  | error error =>
    -- the scan stops before it comes to the types that are repeated
    rw [findings, findings, List.mapM_append, hfinds]
    rfl
  | ok finds =>
    obtain ⟨hfound, rfl⟩ := mapM_findsIn_eq_ok hfinds
    have hall : (types ++ more).mapM s.findsIn = .ok ((types ++ more).map s.foundIn) := by
      refine mapM_findsIn_of_ok fun type htype => hfound type ?_
      exact (List.mem_append.mp htype).elim id (h type)
    rw [findings, findings, hfinds, hall]
    exact congrArg Except.ok (findings_foundInAll_append h)

/-- **The findings in some modules** are those in the types that the index holds for them. -/
theorem findings_scanModules (s : Scanner) (modules : List Module) :
    (s.scanModules {} modules).1.map ScanResult.findings = s.findings (modules.flatMap s.index.typesOf) := by
  have heach := dedupeCalls_scanEach (ScanState.ready_start s.index) modules
  have hmodules : (s.scanModules {} modules).1 = (s.scanEach {} modules).1.map ScanResult.dedupeCalls := rfl
  rw [hmodules, heach, findings]
  cases (modules.flatMap s.index.typesOf).mapM s.findsIn with
  | error error => rfl
  | ok finds => rfl

/-- Scanning leaves work that is never cancelled as it is. -/
theorem cancellation_scanModules (s : Scanner) (modules : List Module) :
    (s.scanModules {} modules).2.cancellation = .never :=
  (s.ready_scanEach (ScanState.ready_start s.index) modules).cancellation

end Scanner

end JobClosure
