import JobClosure.CallSite.Graph
import JobClosure.Cancellation

/-!
# The walk towards the callers

A call reference names a job type through the parameters of the method it stands in. What the parameters
are is known only where that method is called. The walk therefore goes from the reference to the callers
of its method, substitutes what each call site supplies, and goes on until the target is closed.

A state of the walk is a target, the method in whose terms it is expressed and the path that led there. A
path is a list of keys, each a method with the parameters that were open in it. A state is given up when

* its key is on its path: the branch came back to where it was,
* the same target was expanded for the same method before, or
* nobody calls the method.

A call site that leaves the target as it is leads on only if the caller declares all open parameters.

The pending states form a stack and the callers of a method are taken in the order of the graph.
-/

namespace JobClosure

/-- A method and the parameters that are open in it. -/
abbrev WalkKey := MethodId × List Parameter

structure WalkState where
  target : TypeArg
  context : MethodId
  path : List WalkKey := []
  deriving DecidableEq, Repr

namespace WalkState

/-- The key of a state: targets of any shape with the same open parameters have the same key. -/
def key (s : WalkState) : WalkKey := (s.context, s.target.openParameters)

end WalkState

/-- Whether every parameter is declared by a method or by the type that declares it. -/
def MethodId.ownsAll (method : MethodId) (parameters : List Parameter) : Bool :=
  parameters.all fun p => p.owner == if p.ofMethod then method.text else method.declaringType

/-- The state that a call site leads to, if it leads anywhere. -/
def WalkState.through (s : WalkState) (site : CallSite) : Option WalkState :=
  let target := s.target.subst site.bindings
  if target = s.target ∧ ¬ site.caller.ownsAll s.target.openParameters then none
  else some ⟨target, site.caller, s.key :: s.path⟩

/-- The states that the callers of a state's method lead to. -/
def CallGraph.successors (graph : CallGraph) (s : WalkState) : List WalkState :=
  (graph.callersOf s.context).filterMap s.through

/-- How far a walk has come. -/
structure Walk where
  pending : List WalkState
  /-- The targets and methods that have been expanded. -/
  expanded : List (TypeArg × MethodId) := []
  /-- The closed targets in the order in which they were found. -/
  found : List TypeRef := []
  deriving DecidableEq, Repr

namespace Walk

/-- The walk that starts at a call reference. -/
def start (call : CallReference) : Walk := { pending := [⟨call.target, call.entry, []⟩] }

/-- What becomes of the first pending state `s` when the others are `rest`. -/
def visit (graph : CallGraph) (w : Walk) (s : WalkState) (rest : List WalkState) : Walk :=
  match s.target.closed? with
  | some ref => { w with pending := rest, found := addDistinct id w.found ref }
  | none =>
    if s.key ∈ s.path then { w with pending := rest }
    else if (s.target, s.context) ∈ w.expanded then { w with pending := rest }
    else
      { w with
        pending := graph.successors s ++ rest
        expanded := (s.target, s.context) :: w.expanded }

/-- One step: the first pending state is visited. -/
def step (graph : CallGraph) (w : Walk) : Walk :=
  match w.pending with
  | [] => w
  | s :: rest => w.visit graph s rest

end Walk

end JobClosure
