import JobClosure.CallSite.Basic

/-!
# The call graph

The call graph groups call sites by their callee. Callees and the sites of a callee keep the order of
their first occurrence, and equal sites are kept once.
-/

namespace JobClosure

/-- Call sites by callee. -/
structure CallGraph where
  groups : List (MethodId × List CallSite) := []
  deriving Repr, DecidableEq, Inhabited

namespace CallGraph

/-- Adds a site to the group of its callee, which is made if there is none. -/
def insertInto (site : CallSite) : List (MethodId × List CallSite) → List (MethodId × List CallSite)
  | [] => [(site.callee, [site])]
  | (callee, sites) :: rest =>
    if callee = site.callee then (callee, addDistinct id sites site) :: rest
    else (callee, sites) :: insertInto site rest

def insert (graph : CallGraph) (site : CallSite) : CallGraph := ⟨insertInto site graph.groups⟩

/-- The graph of a list of sites. -/
def ofSites (sites : List CallSite) : CallGraph := sites.foldl insert {}

/-- The sites that call a method. -/
def callersOf (graph : CallGraph) (method : MethodId) : List CallSite :=
  (graph.groups.lookup method).getD []

/-- The sites that call a method and supply generic arguments. -/
def genericCallersOf (graph : CallGraph) (method : MethodId) : List CallSite :=
  (graph.callersOf method).filter (·.isGeneric)

def sites (graph : CallGraph) : List CallSite := graph.groups.flatMap (·.2)

def size (graph : CallGraph) : Nat := graph.sites.length

/-- The groups as a table; on demand only the sites with generic arguments, without empty groups. -/
def lookupTable (graph : CallGraph) (genericOnly : Bool) : List (MethodId × List CallSite) :=
  let restricted := graph.groups.map fun (callee, sites) =>
    (callee, if genericOnly then sites.filter (·.isGeneric) else sites)
  restricted.filter fun (_, sites) => !sites.isEmpty

end CallGraph

end JobClosure
