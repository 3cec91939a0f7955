import JobClosure.Proofs.CallSite.Workshop
import JobClosure.Proofs.Instantiation.Reachability
import JobClosure.Proofs.Instantiation.Union
import Mathlib

/-!
# What resolving answers and what it reports

Nothing that a walk leaves behind is seen by another walk, so that resolving a list of call references is told
by what each of them comes to by itself (`Resolver.answer`). The reports are those of the references that come
to nothing, one for each time such a reference is given (`Resolver.diagnostics_resolve`).

The answers are put together and sorted by spelling. Two closed targets that are made of names of the grammar
are not spelled alike, and over the call sites of a scan nothing else is reached from a target that is made of
such names (`ScanResult.Grammatical.of_reaches`). Then the order is strict, and the list does not depend on the
order of the references or on how often one is given (`Resolver.resolve_sorted_union`).
-/

namespace JobClosure

namespace Resolver

variable {r : Resolver}

/-- What a call reference comes to by itself. -/
def answer (r : Resolver) (call : CallReference) : List TypeRef :=
  match (r.resolveCall .never call).result with
  | .ok refs => refs
  | .error _ => []

theorem answer_of_comesTo {call : CallReference} {found : List TypeRef} (h : Walk.ComesTo r.graph call found) :
    r.answer call = sortBySpelling found := by
  rw [answer, result_of_comesTo h]

/-- A single call reference is answered, and it is reported if there is nothing in the answer. -/
theorem resolveCall_never (r : Resolver) (call : CallReference) : r.resolveCall .never call
    = ⟨.ok (r.answer call), if (r.answer call).isEmpty then [r.unresolved call] else [], .never⟩ := by
  obtain ⟨n, hn, -⟩ := Walk.exists_endsAt r.graph call
  have hanswer : r.answer call = sortBySpelling (Walk.after r.graph call n).found := answer_of_comesTo ⟨n, hn, rfl⟩
  have hempty : (r.answer call).isEmpty = (Walk.after r.graph call n).found.isEmpty := by
    rw [hanswer]
    exact (List.mergeSort_perm _ _).isEmpty_eq
  rw [hempty, hanswer]
  unfold resolveCall
  rw [hn.run_never]

theorem mem_answer_iff {call : CallReference} {ref : TypeRef} : ref ∈ r.answer call ↔ r.Reaches call ref := by
  obtain ⟨refs, hrefs, -, hmem⟩ := r.resolveCall_answers call
  rw [resolveCall_never] at hrefs
  rw [Except.ok.inj hrefs]
  exact hmem ref

theorem diagnostics_collect (r : Resolver) (found : List TypeRef) (calls : List CallReference) :
    (r.collect .never found calls).diagnostics
      = (calls.filter fun call => (r.answer call).isEmpty).map r.unresolved := by
  induction calls generalizing found with
  | nil => rfl
  | cons call rest ih =>
    rw [collect, resolveCall_never]
    dsimp only
    rw [ih]
    by_cases hempty : (r.answer call).isEmpty
    · rw [if_pos hempty, List.filter_cons, if_pos hempty]
      rfl
    · rw [if_neg hempty, List.filter_cons, if_neg hempty]
      rfl

/-- **What resolving reports**: the references that come to nothing, as often and in the order as they are given. -/
theorem diagnostics_resolve (r : Resolver) (calls : List CallReference) : (r.resolve .never calls).diagnostics
    = (calls.filter fun call => (r.answer call).isEmpty).map r.unresolved :=
  r.diagnostics_collect [] calls

end Resolver

namespace ScanResult

variable {found : ScanResult} {r : Resolver}

/-- **What is reached over the call sites of a scan** is closed, and made of names of the grammar if the target
of the call reference is. -/
theorem Grammatical.of_reaches (hnames : found.Grammatical) (hgraph : r.graph = found.graph) {call : CallReference}
    (htarget : call.target.Grammatical) {ref : TypeRef} (hreaches : r.Reaches call ref) :
    ref.toArg.Grammatical ∧ ref.toArg.isOpen = false := by
  obtain ⟨s, hs, hend⟩ := hreaches
  rw [hgraph] at hs
  obtain ⟨keys, hroute⟩ := Walk.route_of_reached hs.reached hend
  exact ⟨hnames.of_route hroute htarget, hroute.isOpen_eq_false⟩

theorem Grammatical.target {call : CallReference} (hnames : found.Grammatical)
    (h : call ∈ found.calls ∨ call.target.Grammatical) : call.target.Grammatical :=
  h.elim (hnames.calls call) id

end ScanResult

/-- A scan finds nothing but names of the grammar. -/
theorem grammatical_of_survey {marker : String} {modules : List Module} {found : ScanResult}
    (h : survey marker modules = .ok found) : found.Grammatical :=
  (Scanner.comesFrom_scanModules h).grammatical

/--
**Resolving is a sorted union, and what comes to nothing is reported.**

Call references are resolved over the call sites of scanned modules. Whatever references are given, each has an
answer of its own, together they are resolved to the members of these answers, each once and in the order of the
spellings, and one report is made for every reference with an empty answer and for no other, in their order.

Let the references be among those of the scan, or let their targets be made of names of the grammar. Then the
list ascends strictly, and references with the same members are resolved to the same list, in whatever order and
however often they are given.
-/
theorem Resolver.resolve_sorted_union {marker : String} {modules : List Module} {found : ScanResult}
    (hfound : survey marker modules = .ok found) {r : Resolver} (hgraph : r.graph = found.graph)
    (calls : List CallReference) :
    (∀ call, (r.resolveCall .never call).result = .ok (r.answer call)) ∧
    (∃ refs, (r.resolve .never calls).result = .ok refs ∧ refs.Nodup
      ∧ refs.Pairwise (fun a b => a.spell ≤ b.spell)
      ∧ (∀ ref, ref ∈ refs ↔ ∃ call ∈ calls, ref ∈ r.answer call)
      ∧ ((∀ call ∈ calls, call ∈ found.calls ∨ call.target.Grammatical) →
        refs.Pairwise (fun a b => a.spell < b.spell)
        ∧ ∀ calls' : List CallReference, (∀ call, call ∈ calls' ↔ call ∈ calls) →
            (r.resolve .never calls').result = .ok refs)) ∧
    (r.resolve .never calls).diagnostics = (calls.filter fun call => (r.answer call).isEmpty).map r.unresolved ∧
    ∀ d ∈ (r.resolve .never calls).diagnostics, d.code = some "R0001" := by
  have hnames := grammatical_of_survey hfound
  obtain ⟨refs, hrefs, hnodup, hsorted, hmem⟩ := r.resolve_answers calls
  refine ⟨fun call => ?_, ⟨refs, hrefs, hnodup, hsorted, fun ref => ?_, fun hcalls => ?_⟩,
    r.diagnostics_resolve calls, fun d hd => ?_⟩
  · rw [r.resolveCall_never]
  · rw [hmem]
    exact exists_congr fun call => and_congr_right fun _ => mem_answer_iff.symm
  · -- what two references come to is told apart by the spellings
    have hspell : ∀ a ∈ refs, ∀ b ∈ refs, a.spell = b.spell → a = b := by
      intro a ha b hb hsame
      obtain ⟨call, hcall, hreaches⟩ := (hmem a).mp ha
      obtain ⟨call', hcall', hreaches'⟩ := (hmem b).mp hb
      obtain ⟨hatext, haclosed⟩ := hnames.of_reaches hgraph (hnames.target (hcalls call hcall)) hreaches
      obtain ⟨hbtext, hbclosed⟩ := hnames.of_reaches hgraph (hnames.target (hcalls call' hcall')) hreaches'
      exact TypeRef.toArg_injective (TypeArg.eq_of_spell_eq hatext hbtext haclosed hbclosed hsame)
    constructor
    · -- no two members are spelled alike, so the order is strict
      refine (hsorted.and hnodup).imp_of_mem fun {a b} ha hb hab => ?_
      exact String.not_le.mp fun hba => hab.2 (hspell a ha b hb (String.le_antisymm hab.1 hba))
    · -- a sorted list without duplicates is told by its members
      intro calls' hsame
      obtain ⟨refs', hrefs', hnodup', hsorted', hmem'⟩ := r.resolve_answers calls'
      rw [hrefs']
      refine congrArg Except.ok (eq_of_mem_iff hnodup hnodup' hsorted hsorted' hspell fun ref => ?_).symm
      rw [hmem, hmem']
      exact exists_congr fun call => and_congr_left fun _ => (hsame call).symm
  · rw [r.diagnostics_resolve] at hd
    obtain ⟨call, -, rfl⟩ := List.mem_map.mp hd
    rfl

/-! ## A job that is never made

Two generic methods make a job in terms of their parameter. One of them is called, with two different arguments;
nobody calls the other. -/

namespace DeadEnd

open Workshop (made work passing jobFor)

def main : Workshop.Worker where
  name := "Main"
  tasks := [.call "Work" "Run" "Text", .call "Work" "Run" "Int"]

def demo : Module := Workshop.shop "Demo" [("Work", [Workshop.run, { Workshop.run with name := "Idle" }, main])]

def run : CallReference := made (work "Run")

def idle : CallReference := made (work "Idle")

def found : ScanResult where
  calls := [run, idle]
  callSites :=
    [ passing (work "Main") (work "Run") (.named "Text" []),
      passing (work "Main") (work "Run") (.named "Int" []) ]

theorem survey_demo : survey "job" [demo] = .ok found := by cbv

def resolver : Resolver := ⟨Index.ofModules [demo], found.graph⟩

def job (argument : String) : TypeRef := jobFor (.named argument [])

theorem comesTo_run : Walk.ComesTo found.graph run [job "Text", job "Int"] := ⟨3, by decide, by decide⟩

theorem comesTo_idle : Walk.ComesTo found.graph idle [] := ⟨1, by decide, by decide⟩

theorem answer_run : resolver.answer run = [job "Int", job "Text"] := by
  have hspell : ¬ (job "Text").spell ≤ (job "Int").spell := by decide
  rw [Resolver.answer_of_comesTo (r := resolver) comesTo_run, Resolver.sortBySpelling_pair, if_neg hspell]

theorem answer_idle : resolver.answer idle = [] := by
  rw [Resolver.answer_of_comesTo (r := resolver) comesTo_idle, Resolver.sortBySpelling_nil]

/-- The reference that is never made is reported each time it is given, and the others are resolved as they are
without it. -/
theorem idle_reported : survey "job" [demo] = .ok found ∧
    (∃ refs, (resolver.resolve .never [idle, run, idle, run]).result = .ok refs ∧
      refs.Pairwise (fun a b => a.spell < b.spell) ∧ (∀ ref, ref ∈ refs ↔ ref ∈ [job "Int", job "Text"]) ∧
      (resolver.resolve .never [run, idle]).result = .ok refs) ∧
    (resolver.resolve .never [idle, run, idle, run]).diagnostics
      = [resolver.unresolved idle, resolver.unresolved idle] := by
  obtain ⟨-, ⟨refs, hrefs, -, -, hmem, hstrict⟩, hreports, -⟩ :=
    Resolver.resolve_sorted_union survey_demo (r := resolver) rfl [idle, run, idle, run]
  have hscanned : ∀ call ∈ [idle, run, idle, run], call ∈ found.calls ∨ call.target.Grammatical := by
    intro call hcall
    exact .inl (show call ∈ [run, idle] by grind)
  obtain ⟨hpairwise, hsame⟩ := hstrict hscanned
  refine ⟨survey_demo, ⟨refs, hrefs, hpairwise, fun ref => ?_, hsame _ fun call => by grind⟩, ?_⟩
  · rw [hmem]
    simp only [List.mem_cons, exists_eq_or_imp, answer_run, answer_idle]
    simp
  · rw [hreports]
    simp only [List.filter_cons, answer_run, answer_idle, List.filter_nil]
    rfl

end DeadEnd

end JobClosure
