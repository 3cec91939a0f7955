import JobClosure.Proofs.TypeRef.Substitution

/-!
# Laws of substitution

Substituting twice is substituting once, with bindings that can be written down: what the first ones give is
substituted by the second ones, and a parameter that only the second ones bind keeps what they give it
(`Bindings.andThen`). It is not enough to put the two lists together. A substitution is simultaneous, so the
parameters in what it puts in are not looked at again, and two parameters can change places.

The parameters that are open afterwards are told by those that were open before, each expanded to what came in its
place. An argument stays as it is exactly if all its open parameters do, and it has some exactly if it is open
(`TypeArg.substitution_laws`).
-/

namespace JobClosure

/-! ## Bindings in a row -/

namespace Bindings

/-- What `first` and then `second` do. The pairs of `first` come last, so they override those of `second`. -/
def andThen (first second : Bindings) : Bindings :=
  second ++ first.map fun pair => (pair.1, pair.2.subst second)

theorem get?_map_subst (first second : Bindings) (p : Parameter) :
    Bindings.get? (first.map fun pair => (pair.1, pair.2.subst second)) p
      = (first.get? p).map (TypeArg.subst second) := by
  induction first with
  | nil => rfl
  | cons pair rest ih =>
    obtain ⟨q, arg⟩ := pair
    simp only [List.map_cons, Bindings.get?]
    rw [ih]
    by_cases hq : q = p
    · cases Bindings.get? rest p with
      | none => simp [hq]
      | some found => simp
    · simp [hq]

/-- **One after the other**, for a single parameter. -/
theorem apply_andThen (first second : Bindings) (p : Parameter) :
    (first.andThen second).apply p = (first.apply p).subst second := by
  unfold apply andThen
  rw [get?_append, get?_map_subst]
  cases first.get? p with
  | some arg => rfl
  | none =>
    -- only the second bindings can know the parameter
    simp only [Option.map_none, Option.none_or, Option.getD_none, TypeArg.subst]
    rfl

end Bindings

namespace TypeArg

/-! ## Arguments that a replacement leaves alone -/

mutual

/-- What keeps an argument keeps every parameter that occurs in it. -/
theorem eq_param_of_replace_eq_self {f : Parameter → TypeArg} :
    ∀ arg : TypeArg, arg.replace f = arg → ∀ p ∈ arg.occurrences, f p = .param p
  | .param q, h => by
    intro p hp
    rw [occurrences, List.mem_singleton] at hp
    subst hp
    exact h
  | .named name args, h => by
    rw [replace, named.injEq] at h
    exact eq_param_of_replaceAll_eq_self args h.2

theorem eq_param_of_replaceAll_eq_self {f : Parameter → TypeArg} :
    ∀ args : List TypeArg, replaceAll f args = args → ∀ p ∈ occurrencesAll args, f p = .param p
  | [], _ => by simp [occurrencesAll]
  | arg :: rest, h => by
    intro p hp
    rw [replaceAll, List.cons.injEq] at h
    rw [occurrencesAll, List.mem_append] at hp
    rcases hp with hp | hp
    · exact eq_param_of_replace_eq_self arg h.1 p hp
    · exact eq_param_of_replaceAll_eq_self rest h.2 p hp

end

theorem replace_eq_self_iff {f : Parameter → TypeArg} {arg : TypeArg} :
    arg.replace f = arg ↔ ∀ p ∈ arg.openParameters, f p = .param p := by
  simp only [mem_openParameters]
  exact ⟨eq_param_of_replace_eq_self arg, replace_eq_self arg⟩

/-! ## The laws -/

theorem subst_subst (first second : Bindings) (arg : TypeArg) :
    (arg.subst first).subst second = arg.subst (first.andThen second) := by
  rw [subst_eq_replace first, subst_eq_replace second, replace_replace, subst_eq_replace (first.andThen second)]
  congr 1
  funext p
  rw [Bindings.apply_andThen, subst_eq_replace]

/-- The open parameters after a substitution, from the open parameters before it. -/
theorem openParameters_subst (bindings : Bindings) (arg : TypeArg) :
    (arg.subst bindings).openParameters
      = distinctBy id (arg.openParameters.flatMap fun p => (bindings.apply p).openParameters) := by
  rw [subst_eq_replace, openParameters_replace]
  exact (distinctBy_flatMap_distinctBy _ _).symm

theorem isOpen_iff_openParameters_ne_nil {arg : TypeArg} : arg.isOpen = true ↔ arg.openParameters ≠ [] := by
  rw [← Bool.not_eq_false, isOpen_eq_false_iff, openParameters, Ne, distinctBy_eq_nil_iff]

/--
**The laws of substitution.**

A substitution puts its arguments in place of all parameters at once. One after another is a single one, whose
argument for a parameter is what the second makes of that of the first. What is open afterwards are the parameters
of what came in place of the open ones, in the order of their first occurrence. An argument is open exactly if it has
open parameters, and it is not changed exactly if none of them is.
-/
theorem substitution_laws (arg : TypeArg) (first second : Bindings) :
    arg.subst first = arg.replace first.apply
    ∧ (∀ p, (first.andThen second).apply p = (first.apply p).subst second)
    ∧ (arg.subst first).subst second = arg.subst (first.andThen second)
    ∧ (arg.subst first).openParameters
        = distinctBy id (arg.openParameters.flatMap fun p => (first.apply p).openParameters)
    ∧ (arg.isOpen = true ↔ arg.openParameters ≠ [])
    ∧ (arg.subst first = arg ↔ ∀ p ∈ arg.openParameters, first.apply p = .param p) := by
  refine ⟨subst_eq_replace first arg, first.apply_andThen second, subst_subst first second arg,
    openParameters_subst first arg, isOpen_iff_openParameters_ne_nil, ?_⟩
  rw [subst_eq_replace]
  exact replace_eq_self_iff

/-- Parameters that change places twice are back where they were, though neither list of bindings does anything to
what the other puts in before the second substitution. -/
example :
    let t : Parameter := ⟨"Box", "T", false⟩
    let u : Parameter := ⟨"Box", "U", false⟩
    let swap : Bindings := [(t, .param u), (u, .param t)]
    (TypeArg.named "Pair" [.param t, .param u]).subst swap = .named "Pair" [.param u, .param t]
    ∧ (TypeArg.named "Pair" [.param t, .param u]).subst (swap.andThen swap)
        = .named "Pair" [.param t, .param u] := by
  decide

end TypeArg

end JobClosure
