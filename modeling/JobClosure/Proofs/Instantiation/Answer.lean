import JobClosure.Proofs.Instantiation.Run

/-!
# What a walk answers, and when

`Walk.run` is the walk carried to its end. It asks once before every step whether it has been cancelled, so
with `n` steps to go it needs `n` questions answered with no (`run_after`), and a cancellation can keep it
from answering but cannot change the answer (`resolveCall_answers`).

**The walk ends** (`pending_empties`). Targets may grow without bound, so neither their size nor the set of
expanded nodes is a measure. What cannot grow is the path of a state: its keys are distinct, and only
finitely many can occur. The number of steps is then bounded through the weight of the pending states.
-/

namespace JobClosure

namespace Walk

variable {graph : CallGraph} {call : CallReference}

/-! ## Carrying a walk to its end -/

theorem run_of_ended {w : Walk} {cancellation : Cancellation} (h : w.pending = []) :
    run graph cancellation w = (some w.found, cancellation) := by
  rw [run, dif_pos h]

theorem run_of_ask {w : Walk} {cancellation next : Cancellation} (h : w.pending ≠ [])
    (hask : cancellation.ask? = some next) : run graph cancellation w = run graph next (w.step graph) := by
  rw [run, dif_neg h, hask]

theorem run_of_cancelled {w : Walk} {cancellation : Cancellation} (h : w.pending ≠ [])
    (hask : cancellation.ask? = none) : run graph cancellation w = (none, cancellation) := by
  rw [run, dif_neg h, hask]

theorem EndsAt.run_never {n : Nat} (hn : EndsAt graph call n) :
    (start call).run graph .never = (some (after graph call n).found, .never) := by
  have key : ∀ k m, m + k = n →
      run graph .never (after graph call m) = (some (after graph call n).found, .never) := by
    intro k
    induction k with
    | zero =>
      intro m hm
      obtain rfl : m = n := hm
      exact run_of_ended hn.1
    | succ k ih =>
      intro m hm
      rw [run_of_ask (hn.2 m (by omega)) rfl]
      exact ih (m + 1) (by omega)
  exact key n 0 (Nat.zero_add n)

/-- A walk of `n` steps asks `n` questions. -/
theorem EndsAt.run_after {n : Nat} (hn : EndsAt graph call n) (questions : Nat) :
    (start call).run graph (.after questions) =
      if n ≤ questions then (some (after graph call n).found, .after (questions - n))
      else (none, .now) := by
  -- with `k` steps to go the walk needs `k` more questions
  have key : ∀ k m q, m + k = n →
      run graph (.after q) (after graph call m) =
        if k ≤ q then (some (after graph call n).found, .after (q - k)) else (none, .now) := by
    intro k
    induction k with
    | zero =>
      intro m q hm
      obtain rfl : m = n := hm
      rw [run_of_ended hn.1, if_pos (Nat.zero_le q), Nat.sub_zero]
    | succ k ih =>
      intro m q hm
      have hpending := hn.2 m (by omega)
      cases q with
      | zero => rw [run_of_cancelled hpending rfl, if_neg (by omega)]; rfl
      | succ q =>
        rw [run_of_ask hpending rfl]
        show run graph (.after q) (after graph call (m + 1)) = _
        rw [ih (m + 1) q (by omega), Nat.add_sub_add_right]
        by_cases hk : k ≤ q
        · rw [if_pos hk, if_pos (Nat.succ_le_succ hk)]
        · rw [if_neg hk, if_neg (fun h => hk (Nat.le_of_succ_le_succ h))]
  exact key n 0 questions (Nat.zero_add n)

/-- What a cancellation leaves of the answer is the answer. -/
theorem EndsAt.found_of_run {n : Nat} (hn : EndsAt graph call n) {c c' : Cancellation}
    {refs : List TypeRef} (h : (start call).run graph c = (some refs, c')) :
    refs = (after graph call n).found := by
  cases c with
  | never =>
    rw [hn.run_never] at h
    exact (Option.some.inj (Prod.mk.inj h).1).symm
  | after questions =>
    rw [hn.run_after] at h
    split at h
    · exact (Option.some.inj (Prod.mk.inj h).1).symm
    · exact absurd (Prod.mk.inj h).1 (Option.some_ne_none refs).symm

/-! ## Paths are bounded -/

/-- Every key on a path takes from the keys that are still free. -/
theorem Pops.length_path_le {s : WalkState} (h : Pops graph call s) :
    s.path.length ≤ graph.rank (startState call) := by
  -- an expansion puts one key on the path and takes one from the free keys
  have bound : s.path.length + graph.rank s ≤ graph.rank (startState call) := by
    refine h.invariant (P := fun s => s.path.length + graph.rank s ≤ graph.rank (startState call)) ?_ ?_
    · exact Nat.le_of_eq (Nat.zero_add _)
    · intro s hexp hs t ht
      have hlt := graph.rank_lt_of_mem_successors ht hexp.fresh
      rw [(hexp.mem_successors_iff.mp ht).2, List.length_cons]
      omega
  exact Nat.le_trans (Nat.le_add_right _ _) bound

/--
**The walk of every call reference over every call graph ends.**

Paths stay within the number of keys that can occur, nothing is pending after a bounded number `n` of steps,
and that is when resolving stops: it asks exactly `n` times whether it has been cancelled.
-/
theorem pending_empties (graph : CallGraph) (call : CallReference) :
    (∀ s, Pops graph call s → s.path.length ≤ graph.rank (startState call))
    ∧ ∃ n, n ≤ (graph.size + 1) ^ graph.rank (startState call)
      ∧ (after graph call n).pending = [] ∧ (∀ m < n, (after graph call m).pending ≠ [])
      ∧ (start call).run graph .never = (some (after graph call n).found, .never)
      ∧ ∀ questions, (start call).run graph (.after questions) =
          if n ≤ questions then (some (after graph call n).found, .after (questions - n))
          else (none, .now) := by
  obtain ⟨n, hn, hle⟩ := exists_endsAt graph call
  exact ⟨fun s hs => hs.length_path_le, n, hle, hn.1, hn.2, hn.run_never, hn.run_after⟩

end Walk

namespace Resolver

theorem mem_sortBySpelling {refs : List TypeRef} {ref : TypeRef} :
    ref ∈ sortBySpelling refs ↔ ref ∈ refs :=
  List.mem_mergeSort

/-- What is sorted is in ascending order of the spellings. -/
theorem pairwise_sortBySpelling (refs : List TypeRef) :
    (sortBySpelling refs).Pairwise fun a b => a.spell ≤ b.spell := by
  have hsorted : (sortBySpelling refs).Pairwise fun a b => decide (a.spell ≤ b.spell) = true := by
    refine List.pairwise_mergeSort (fun a b c hab hbc => ?_) (fun a b => ?_) refs
    · exact decide_eq_true (String.le_trans (of_decide_eq_true hab) (of_decide_eq_true hbc))
    · simpa using String.le_total a.spell b.spell
  exact hsorted.imp of_decide_eq_true

/-- The answer is what the walk has found at its end, sorted by spelling. -/
theorem result_of_comesTo {r : Resolver} {call : CallReference} {found : List TypeRef}
    (h : Walk.ComesTo r.graph call found) : (r.resolveCall .never call).result = .ok (sortBySpelling found) := by
  obtain ⟨n, hn, rfl⟩ := h
  unfold resolveCall
  rw [hn.run_never]

/-- **What resolving a call reference answers.** Without a cancellation there is an answer, any other answer
is the same, and its members are the closed targets that the walk pops. -/
theorem resolveCall_answers (r : Resolver) (call : CallReference) :
    ∃ refs, (r.resolveCall .never call).result = .ok refs
      ∧ (∀ c refs', (r.resolveCall c call).result = .ok refs' → refs' = refs)
      ∧ ∀ ref, ref ∈ refs ↔ ∃ s, Walk.Pops r.graph call s ∧ s.target.closed? = some ref := by
  obtain ⟨n, hn, -⟩ := Walk.exists_endsAt r.graph call
  refine ⟨sortBySpelling (Walk.after r.graph call n).found, result_of_comesTo ⟨n, hn, rfl⟩, ?_, ?_⟩
  · intro c refs' h
    unfold resolveCall at h
    cases hrun : (Walk.start call).run r.graph c with
    | mk answer c' =>
      rw [hrun] at h
      cases answer with
      | none => exact absurd h (by simp)
      | some found =>
        rw [hn.found_of_run hrun] at h
        exact (Except.ok.inj h).symm
  · intro ref
    rw [mem_sortBySpelling, hn.mem_found_iff]

end Resolver

end JobClosure
