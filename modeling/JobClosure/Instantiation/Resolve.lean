import JobClosure.Diagnostic
import JobClosure.Index.Basic
import JobClosure.Instantiation.Termination

/-!
# Resolving call references

Resolving a call reference means running its walk to the end; the closed targets, sorted by spelling, are
its instantiations. A reference without any is reported. Resolving several references gives the union of
their instantiations, again sorted. The work may be cancelled before every step of a walk.
-/

namespace JobClosure

namespace Walk

/-- Runs a walk to its end: the closed targets in the order in which they are found, or nothing if the
work is cancelled before some step. -/
def run (graph : CallGraph) (cancellation : Cancellation) (w : Walk) : Option (List TypeRef) × Cancellation :=
  if _h : w.pending = [] then (some w.found, cancellation)
  else
    match cancellation.ask? with
    | none => (none, cancellation)
    | some cancellation => run graph cancellation (w.step graph)
termination_by w.weight graph
decreasing_by exact weight_step_lt _h

end Walk

/-- What call references are resolved against. -/
structure Resolver where
  index : Index
  graph : CallGraph
  deriving Repr

/-- What resolving leads to: instantiations or an error, what was reported, and how far the cancellation
has come. -/
structure Resolution where
  result : Except Error (List TypeRef)
  diagnostics : List Diagnostic
  cancellation : Cancellation

namespace Resolver

/-- References in ascending order of their spellings. -/
def sortBySpelling (refs : List TypeRef) : List TypeRef :=
  refs.mergeSort fun a b => decide (a.spell ≤ b.spell)

theorem sortBySpelling_nil : sortBySpelling [] = [] := List.mergeSort_nil

theorem sortBySpelling_singleton (ref : TypeRef) : sortBySpelling [ref] = [ref] := List.mergeSort_singleton ref

/-- Two references are put in order by comparing their spellings. -/
theorem sortBySpelling_pair (a b : TypeRef) :
    sortBySpelling [a, b] = if a.spell ≤ b.spell then [a, b] else [b, a] := by
  by_cases h : a.spell ≤ b.spell
  · simp [sortBySpelling, List.mergeSort, List.MergeSort.Internal.splitInTwo, h]
  · simp [sortBySpelling, List.mergeSort, List.MergeSort.Internal.splitInTwo, h]

/-- The report of a call reference that has no instantiation. -/
def unresolved (r : Resolver) (call : CallReference) : Diagnostic where
  message := "job instantiation could not be resolved"
  location :=
    let module := match r.index.method? call.entry with
      | some method => method.module
      | none => call.entry.declaringType
    some ⟨module, some call.entry.text⟩
  code := some Diagnostic.unresolvedCall
  note := some (call.target.spell ++ " is never instantiated with concrete arguments")

def resolveCall (r : Resolver) (cancellation : Cancellation) (call : CallReference) : Resolution :=
  match (Walk.start call).run r.graph cancellation with
  | (none, cancellation) => ⟨.error .cancelled, [], cancellation⟩
  | (some found, cancellation) =>
    ⟨.ok (sortBySpelling found), if found.isEmpty then [r.unresolved call] else [], cancellation⟩

/-- Resolves call references in order and puts their instantiations together. -/
def collect (r : Resolver) (cancellation : Cancellation) (found : List TypeRef) :
    List CallReference → Resolution
  | [] => ⟨.ok found, [], cancellation⟩
  | call :: rest =>
    let first := r.resolveCall cancellation call
    match first.result with
    | .error error => ⟨.error error, first.diagnostics, first.cancellation⟩
    | .ok refs =>
      let more := r.collect first.cancellation (refs.foldl (addDistinct id) found) rest
      { more with diagnostics := first.diagnostics ++ more.diagnostics }

/-- Resolves call references: the union of their instantiations, sorted. -/
def resolve (r : Resolver) (cancellation : Cancellation) (calls : List CallReference) : Resolution :=
  let all := r.collect cancellation [] calls
  { all with result := all.result.map sortBySpelling }

end Resolver

end JobClosure
