import JobClosure.CallSite.Scan
import JobClosure.Instantiation.Resolve

/-!
# The analysis of a list of modules

Modules are indexed and scanned, and the call references that are found are resolved over the call sites.
This is the analysis as a function of its modules. A session makes the same steps when they are needed and
keeps what it has.
-/

namespace JobClosure

/-- The call graph of the sites that a scan finds. -/
def ScanResult.graph (found : ScanResult) : CallGraph := CallGraph.ofSites found.callSites

/-- What is found in modules that have been indexed. -/
def survey (marker : String) (modules : List Module) : Except Error ScanResult :=
  (Scanner.scanModules ⟨Index.ofModules modules, marker⟩ {} modules).1

/-- The closed instantiations of all job calls in a list of modules. -/
def instantiations (marker : String) (modules : List Module) : Except Error (List TypeRef) := do
  let found ← survey marker modules
  (Resolver.resolve ⟨Index.ofModules modules, found.graph⟩ .never found.calls).result

end JobClosure
