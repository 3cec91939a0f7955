import JobClosure.TypeRef.Basic

/-!
# Substitution

Bindings give arguments to parameters. Substitution replaces all bound parameters at once; a parameter
without a binding stays open. The name of a type reference never changes, so substitution in a type
reference is again a type reference.

A parameter may be bound more than once; then its last pair decides (`Bindings.get?_eq_some_iff`).
-/

namespace JobClosure

/-- Arguments for parameters. A later pair overrides an earlier one for the same parameter. -/
abbrev Bindings := List (Parameter × TypeArg)

/-- The argument for a parameter. -/
def Bindings.get? : Bindings → Parameter → Option TypeArg
  | [], _ => none
  | (q, arg) :: rest, p => (Bindings.get? rest p).or (if q = p then some arg else none)

namespace Bindings

/-- Later pairs are asked first. -/
theorem get?_append (a b : Bindings) (p : Parameter) : (a ++ b).get? p = (b.get? p).or (a.get? p) := by
  induction a with
  | nil => exact Option.or_none.symm
  | cons pair rest ih =>
    obtain ⟨q, arg⟩ := pair
    show (get? (rest ++ b) p).or _ = _
    rw [ih, Option.or_assoc]
    rfl

theorem get?_eq_none_iff {bindings : Bindings} {p : Parameter} :
    bindings.get? p = none ↔ ∀ pair ∈ bindings, pair.1 ≠ p := by
  induction bindings with
  | nil => exact iff_of_true rfl nofun
  | cons pair rest ih =>
    obtain ⟨q, arg⟩ := pair
    rw [get?, Option.or_eq_none_iff, ih, List.forall_mem_cons, and_comm]
    refine and_congr_left fun _ => ?_
    by_cases h : q = p
    · simp [h]
    · simp [h]

/-- **The last pair of a parameter decides** what it is bound to. -/
theorem get?_eq_some_iff {bindings : Bindings} {p : Parameter} {arg : TypeArg} :
    bindings.get? p = some arg ↔
      ∃ before after, bindings = before ++ (p, arg) :: after ∧ ∀ pair ∈ after, pair.1 ≠ p := by
  constructor
  · intro h
    induction bindings with
    | nil => exact nomatch h
    | cons pair rest ih =>
      obtain ⟨q, first⟩ := pair
      rcases Option.or_eq_some_iff.mp h with hrest | ⟨hnone, hfirst⟩
      · obtain ⟨before, after, rfl, hafter⟩ := ih hrest
        exact ⟨(q, first) :: before, after, rfl, hafter⟩
      · -- nothing for the parameter comes later, so the first pair is the last one for it
        by_cases hq : q = p
        · rw [if_pos hq] at hfirst
          rw [hq, Option.some.inj hfirst]
          exact ⟨[], rest, rfl, get?_eq_none_iff.mp hnone⟩
        · rw [if_neg hq] at hfirst
          exact nomatch hfirst
  · rintro ⟨before, after, rfl, hafter⟩
    rw [get?_append, get?, get?_eq_none_iff.mpr hafter, if_pos rfl]
    rfl

theorem mem_of_get? {bindings : Bindings} {p : Parameter} {arg : TypeArg} (h : bindings.get? p = some arg) :
    (p, arg) ∈ bindings := by
  obtain ⟨before, after, rfl, -⟩ := get?_eq_some_iff.mp h
  exact List.mem_append_right before List.mem_cons_self

end Bindings

/-- What a parameter becomes: its argument, or itself if it is not bound. -/
def Bindings.apply (bindings : Bindings) (p : Parameter) : TypeArg :=
  (bindings.get? p).getD (.param p)

namespace TypeArg

mutual

/-- Every bound parameter replaced by its argument. -/
def subst (bindings : Bindings) : TypeArg → TypeArg
  | .param p => bindings.apply p
  | .named name args => .named name (substAll bindings args)

def substAll (bindings : Bindings) : List TypeArg → List TypeArg
  | [] => []
  | arg :: rest => subst bindings arg :: substAll bindings rest

end

end TypeArg

/-- Substitution in the arguments of a type reference. -/
def TypeRef.subst (bindings : Bindings) (ref : TypeRef) : TypeRef :=
  ⟨ref.name, TypeArg.substAll bindings ref.args⟩

@[simp] theorem TypeRef.toArg_subst (bindings : Bindings) (ref : TypeRef) :
    (ref.subst bindings).toArg = ref.toArg.subst bindings := by
  simp [TypeRef.toArg, TypeRef.subst, TypeArg.subst]

end JobClosure
