import JobClosure.Instantiation.Resolve
import JobClosure.Proofs.Instantiation.Chain
import Mathlib.Algebra.Group.Nat.Defs
import Mathlib.Data.Nat.Find

/-!
# A walk from its start to its end

`Walk.after` is the walk of a call reference after some steps. Each step visits one state, and what can
become of it is said once (`step_cases`): it is found closed, cut because its key is on its path, skipped
because its node was expanded before, or expanded. Later arguments speak about the states that are popped,
expanded and skipped in the course of the walk, and no longer about steps.

The walk ends after a bounded number of steps (`exists_endsAt`): at most `(n + 1) ^ k` for a graph of `n` sites
and `k` keys that can occur.
-/

namespace JobClosure

namespace Walk

/-- The state in which the walk of a call reference starts. -/
def startState (call : CallReference) : WalkState := ⟨call.target, call.entry, []⟩

/-- The walk of a call reference after `n` steps. -/
def after (graph : CallGraph) (call : CallReference) : Nat → Walk
  | 0 => start call
  | n + 1 => (after graph call n).step graph

/-- A state is the first pending one at some time. -/
def Pops (graph : CallGraph) (call : CallReference) (s : WalkState) : Prop :=
  ∃ n rest, (after graph call n).pending = s :: rest

/-- A state is popped and its node is expanded. -/
def Expands (graph : CallGraph) (call : CallReference) (s : WalkState) : Prop :=
  ∃ n rest, (after graph call n).pending = s :: rest ∧ s.target.isOpen = true ∧ s.key ∉ s.path
    ∧ s.node ∉ (after graph call n).expanded

/-- A state is popped that could be expanded, but its node has been expanded before. -/
def Skips (graph : CallGraph) (call : CallReference) (s : WalkState) : Prop :=
  ∃ n rest, (after graph call n).pending = s :: rest ∧ s.target.isOpen = true ∧ s.key ∉ s.path
    ∧ s.node ∈ (after graph call n).expanded

/-- Nothing is pending after `n` steps for the first time. -/
def EndsAt (graph : CallGraph) (call : CallReference) (n : Nat) : Prop :=
  (after graph call n).pending = [] ∧ ∀ m < n, (after graph call m).pending ≠ []

instance (graph : CallGraph) (call : CallReference) (n : Nat) : Decidable (EndsAt graph call n) :=
  inferInstanceAs (Decidable (_ ∧ _))

/-- The walk of a call reference comes to its end and has found these targets. -/
def ComesTo (graph : CallGraph) (call : CallReference) (found : List TypeRef) : Prop :=
  ∃ n, EndsAt graph call n ∧ (after graph call n).found = found

variable {graph : CallGraph} {call : CallReference}

/-! ## One step -/

/-- **Everything that a step can do** with the first pending state. -/
theorem step_cases (graph : CallGraph) {w : Walk} {s : WalkState} {rest : List WalkState}
    (h : w.pending = s :: rest) :
    (∃ ref, s.target.closed? = some ref
      ∧ w.step graph = { w with pending := rest, found := addDistinct id w.found ref })
    ∨ (s.target.isOpen = true ∧ s.key ∈ s.path ∧ w.step graph = { w with pending := rest })
    ∨ (s.target.isOpen = true ∧ s.key ∉ s.path ∧ s.node ∈ w.expanded
      ∧ w.step graph = { w with pending := rest })
    ∨ (s.target.isOpen = true ∧ s.key ∉ s.path ∧ s.node ∉ w.expanded
      ∧ w.step graph = { w with
          pending := graph.successors s ++ rest
          expanded := s.node :: w.expanded }) := by
  have hstep : w.step graph = w.visit graph s rest := by unfold step; rw [h]
  rw [hstep]
  unfold visit
  cases hclosed : s.target.closed? with
  | some ref => exact .inl ⟨ref, rfl, rfl⟩
  | none =>
    have hopen := TypeArg.closed?_eq_none_iff.mp hclosed
    refine .inr ?_
    by_cases hkey : s.key ∈ s.path
    · exact .inl ⟨hopen, hkey, by simp [hkey]⟩
    · by_cases hnode : s.node ∈ w.expanded
      · refine .inr (.inl ⟨hopen, hkey, hnode, ?_⟩)
        have hmem : (s.target, s.context) ∈ w.expanded := hnode
        simp only [hkey, hmem, if_false, if_true]
      · refine .inr (.inr ⟨hopen, hkey, hnode, ?_⟩)
        have hnot : (s.target, s.context) ∉ w.expanded := hnode
        simp only [hkey, hnot, if_false]
        rfl

/-- A step replaces the first pending state and leaves the others below. -/
theorem step_pending (graph : CallGraph) {w : Walk} {s : WalkState} {rest : List WalkState}
    (h : w.pending = s :: rest) :
    ∃ new, (w.step graph).pending = new ++ rest := by
  rcases step_cases graph h with ⟨_, _, hw⟩ | ⟨_, _, hw⟩ | ⟨_, _, _, hw⟩ | ⟨_, _, _, hw⟩
  · exact ⟨[], by rw [hw]; rfl⟩
  · exact ⟨[], by rw [hw]; rfl⟩
  · exact ⟨[], by rw [hw]; rfl⟩
  · exact ⟨graph.successors s, by rw [hw]⟩

/-- **An invariant of a walk** holds all along if it holds at the start and passes on where a state is popped. -/
theorem after_invariant {P : Walk → Prop} (hstart : P (start call))
    (hstep : ∀ n s rest, (after graph call n).pending = s :: rest → P (after graph call n) →
      P ((after graph call n).step graph)) (n : Nat) : P (after graph call n) := by
  induction n with
  | zero => exact hstart
  | succ n ih =>
    rw [after]
    cases hp : (after graph call n).pending with
    | nil =>
      rw [step, hp]
      exact ih
    | cons s rest => exact hstep n s rest hp ih

/-! ## What is pending -/

/-- **An invariant of states** holds of everything pending if it holds at the start and passes from every
expanded state to its successors. -/
theorem pending_invariant {P : WalkState → Prop} (hstart : P (startState call))
    (hstep : ∀ s, Expands graph call s → P s → ∀ t ∈ graph.successors s, P t) (n : Nat) :
    ∀ s ∈ (after graph call n).pending, P s := by
  refine after_invariant (P := fun w => ∀ s ∈ w.pending, P s) (List.forall_mem_singleton.mpr hstart) ?_ n
  intro n u rest hp ih
  -- only an expansion adds states, and it adds the successors of the expanded one
  obtain ⟨hu, hrest⟩ : P u ∧ ∀ s ∈ rest, P s := List.forall_mem_cons.mp (hp ▸ ih)
  rcases step_cases graph hp with ⟨_, _, hw⟩ | ⟨_, _, hw⟩ | ⟨_, _, _, hw⟩ | ⟨hopen, hkey, hnode, hw⟩
  · rwa [hw]
  · rwa [hw]
  · rwa [hw]
  · rw [hw]
    exact List.forall_mem_append.mpr ⟨hstep u ⟨n, rest, hp, hopen, hkey, hnode⟩ hu, hrest⟩

theorem Pops.invariant {P : WalkState → Prop} {s : WalkState} (h : Pops graph call s)
    (hstart : P (startState call))
    (hstep : ∀ s, Expands graph call s → P s → ∀ t ∈ graph.successors s, P t) : P s := by
  obtain ⟨n, rest, hp⟩ := h
  exact pending_invariant hstart hstep n s (hp ▸ List.mem_cons_self)

/-- What is below the top of the stack comes to the top. -/
theorem exists_after_pending_eq {top rest : List WalkState} {n : Nat}
    (h : (after graph call n).pending = top ++ rest) : ∃ m, (after graph call m).pending = rest := by
  -- on the weight: what is pushed on top of `rest` weighs less than what was popped for it
  induction hw : (after graph call n).weight graph using Nat.strongRecOn generalizing n top with
  | _ weight ih =>
    cases top with
    | nil => exact ⟨n, h⟩
    | cons s top =>
      obtain ⟨new, hnew⟩ := step_pending graph h
      have hlt : (after graph call (n + 1)).weight graph < weight := by
        rw [← hw]
        exact weight_step_lt (by rw [h]; exact List.cons_ne_nil _ _)
      have hbelow : (after graph call (n + 1)).pending = (new ++ top) ++ rest := by
        rw [after, hnew]
        exact (List.append_assoc new top rest).symm
      exact ih _ hlt hbelow rfl

theorem pops_of_mem_pending {n : Nat} {s : WalkState} (h : s ∈ (after graph call n).pending) :
    Pops graph call s := by
  obtain ⟨top, rest, hsplit⟩ := List.append_of_mem h
  obtain ⟨m, hm⟩ := exists_after_pending_eq hsplit
  exact ⟨m, rest, hm⟩

theorem pops_start : Pops graph call (startState call) := ⟨0, [], rfl⟩

theorem Expands.pops_successor {s t : WalkState} (h : Expands graph call s)
    (ht : t ∈ graph.successors s) : Pops graph call t := by
  obtain ⟨n, rest, hp, hopen, hkey, hnode⟩ := h
  refine pops_of_mem_pending (n := n + 1) ?_
  -- the first three cases do not expand a state
  rcases step_cases graph hp with ⟨_, hclosed, _⟩ | ⟨_, hcut, _⟩ | ⟨_, _, hskip, _⟩ | ⟨_, _, _, hw⟩
  · rw [(TypeArg.closed?_eq_some_iff.mp hclosed).1] at hopen
    exact absurd hopen (by decide)
  · exact absurd hcut hkey
  · exact absurd hskip hnode
  · rw [after, hw]
    exact List.mem_append_left _ ht

theorem Expands.isOpen {s : WalkState} (h : Expands graph call s) : s.target.isOpen = true := by
  obtain ⟨_, _, _, hopen, _⟩ := h
  exact hopen

theorem Expands.fresh {s : WalkState} (h : Expands graph call s) : s.key ∉ s.path := by
  obtain ⟨_, _, _, _, hkey, _⟩ := h
  exact hkey

theorem Expands.mem_successors_iff {s t : WalkState} (h : Expands graph call s) :
    t ∈ graph.successors s ↔ graph.Leads s.node t.node ∧ t.path = s.key :: s.path :=
  CallGraph.mem_successors_iff h.isOpen

theorem Expands.pops {s : WalkState} (h : Expands graph call s) : Pops graph call s := by
  obtain ⟨n, rest, hp, -⟩ := h
  exact ⟨n, rest, hp⟩

theorem Skips.pops {s : WalkState} (h : Skips graph call s) : Pops graph call s := by
  obtain ⟨n, rest, hp, -⟩ := h
  exact ⟨n, rest, hp⟩

/-! ## What is expanded and what is found -/

theorem exists_expands_of_mem_expanded {n : Nat} : ∀ node ∈ (after graph call n).expanded,
    ∃ s, Expands graph call s ∧ s.node = node := by
  refine after_invariant (P := fun w => ∀ node ∈ w.expanded, ∃ s, Expands graph call s ∧ s.node = node)
    nofun ?_ n
  intro n s rest hp ih
  rcases step_cases graph hp with ⟨_, _, hw⟩ | ⟨_, _, hw⟩ | ⟨_, _, _, hw⟩ | ⟨hopen, hkey, hnode, hw⟩
  · rwa [hw]
  · rwa [hw]
  · rwa [hw]
  · rw [hw]
    exact List.forall_mem_cons.mpr ⟨⟨s, ⟨n, rest, hp, hopen, hkey, hnode⟩, rfl⟩, ih⟩

theorem Skips.exists_expands {s : WalkState} (h : Skips graph call s) :
    ∃ first, Expands graph call first ∧ first.node = s.node := by
  obtain ⟨_, _, _, _, _, hnode⟩ := h
  exact exists_expands_of_mem_expanded _ hnode

/-- **What becomes of a popped state.** -/
theorem Pops.cases {s : WalkState} (h : Pops graph call s) :
    (∃ ref, s.target.closed? = some ref) ∨ (s.target.isOpen = true ∧ s.key ∈ s.path)
      ∨ Skips graph call s ∨ Expands graph call s := by
  obtain ⟨n, rest, hp⟩ := h
  rcases step_cases graph hp with ⟨ref, href, _⟩ | ⟨hopen, hkey, _⟩ | ⟨hopen, hkey, hnode, _⟩ |
    ⟨hopen, hkey, hnode, _⟩
  · exact .inl ⟨ref, href⟩
  · exact .inr (.inl ⟨hopen, hkey⟩)
  · exact .inr (.inr (.inl ⟨n, rest, hp, hopen, hkey, hnode⟩))
  · exact .inr (.inr (.inr ⟨n, rest, hp, hopen, hkey, hnode⟩))

theorem exists_pops_of_mem_found {n : Nat} : ∀ ref ∈ (after graph call n).found,
    ∃ s, Pops graph call s ∧ s.target.closed? = some ref := by
  refine after_invariant (P := fun w => ∀ ref ∈ w.found, ∃ s, Pops graph call s ∧ s.target.closed? = some ref)
    nofun ?_ n
  intro n s rest hp ih
  rcases step_cases graph hp with ⟨ref', href, hw⟩ | ⟨_, _, hw⟩ | ⟨_, _, _, hw⟩ | ⟨_, _, _, hw⟩
  · rw [hw]
    intro ref h
    rcases mem_addDistinct h with h | rfl
    · exact ih ref h
    · exact ⟨s, ⟨n, rest, hp⟩, href⟩
  · rwa [hw]
  · rwa [hw]
  · rwa [hw]

theorem found_subset_step {w : Walk} : w.found ⊆ (w.step graph).found := by
  cases hp : w.pending with
  | nil =>
    unfold step
    rw [hp]
    exact List.Subset.refl _
  | cons s rest =>
    intro ref h
    rcases step_cases graph hp with ⟨_, _, hw⟩ | ⟨_, _, hw⟩ | ⟨_, _, _, hw⟩ | ⟨_, _, _, hw⟩
    · rw [hw]; exact subset_addDistinct h
    · rw [hw]; exact h
    · rw [hw]; exact h
    · rw [hw]; exact h

theorem found_subset_after {m n : Nat} (h : m ≤ n) :
    (after graph call m).found ⊆ (after graph call n).found := by
  induction h with
  | refl => exact List.Subset.refl _
  | step _ ih => exact List.Subset.trans ih found_subset_step

theorem after_eq_of_le {m n : Nat} (hend : (after graph call m).pending = []) (h : m ≤ n) :
    after graph call n = after graph call m := by
  induction h with
  | refl => rfl
  | step _ ih => rw [after, ih, step, hend]

/-- **What a walk finds** in the end: the closed targets of the states that it pops. -/
theorem EndsAt.mem_found_iff {n : Nat} (hn : EndsAt graph call n) {ref : TypeRef} :
    ref ∈ (after graph call n).found ↔ ∃ s, Pops graph call s ∧ s.target.closed? = some ref := by
  refine ⟨exists_pops_of_mem_found ref, ?_⟩
  rintro ⟨s, ⟨m, rest, hp⟩, href⟩
  -- the state was popped before the end, because nothing is pending afterwards
  have hm : m < n := by
    rcases Nat.lt_or_ge m n with hlt | hge
    · exact hlt
    · rw [after_eq_of_le hn.1 hge, hn.1] at hp
      exact absurd hp.symm (List.cons_ne_nil _ _)
  refine found_subset_after (m := m + 1) hm ?_
  rcases step_cases graph hp with ⟨ref', href', hw⟩ | ⟨hopen, _⟩ | ⟨hopen, _⟩ | ⟨hopen, _⟩
  · obtain rfl := Option.some.inj (href'.symm.trans href)
    rw [after, hw]
    exact self_mem_addDistinct_id
  all_goals
    rw [(TypeArg.closed?_eq_some_iff.mp href).1] at hopen
    exact absurd hopen (by decide)

/-! ## The end of the walk -/

/-- As long as something is pending, every step takes from the weight. -/
theorem weight_after_add_le {n : Nat} (h : ∀ m < n, (after graph call m).pending ≠ []) :
    (after graph call n).weight graph + n ≤ (start call).weight graph := by
  induction n with
  | zero => exact Nat.le_refl _
  | succ n ih =>
    have hle := ih fun m hm => h m (Nat.lt_succ_of_lt hm)
    have hlt : (after graph call (n + 1)).weight graph < (after graph call n).weight graph :=
      weight_step_lt (h n (Nat.lt_succ_self n))
    omega

theorem weight_start (graph : CallGraph) (call : CallReference) :
    (start call).weight graph = (graph.size + 1) ^ graph.rank (startState call) := rfl

/-- The walk ends, after a bounded number of steps. -/
theorem exists_endsAt (graph : CallGraph) (call : CallReference) :
    ∃ n, EndsAt graph call n ∧ n ≤ (graph.size + 1) ^ graph.rank (startState call) := by
  have hex : ∃ n, (after graph call n).pending = [] := by
    have hall : (after graph call 0).pending = (after graph call 0).pending ++ [] :=
      (List.append_nil _).symm
    exact exists_after_pending_eq hall
  have hmin : ∀ m < Nat.find hex, (after graph call m).pending ≠ [] := fun m hm => Nat.find_min hex hm
  refine ⟨Nat.find hex, ⟨Nat.find_spec hex, hmin⟩, ?_⟩
  rw [← weight_start]
  have := weight_after_add_le hmin
  omega

end Walk

end JobClosure
