import JobClosure.Proofs.Distinct
import JobClosure.TypeRef.Substitution

/-!
# What substitution does to parameters

`TypeArg.replace` puts whatever a function says in place of every parameter. Substituting bindings is one
case of it (`subst_eq_replace`), and one replacement after another is a single one (`replace_replace`), so
a whole chain of substitutions is a replacement.

A replacement is **flat** when it gives every parameter a parameter or a closed argument. A flat replacement
can rename, merge and close parameters but never wrap one. If it leaves the open parameters of an argument
as they are, in their order, it has not changed the argument at all
(`replace_eq_self_of_openParameters_eq`). Without flatness that fails: wrapping a parameter in a list keeps
the parameters and changes the argument.
-/

namespace JobClosure

namespace TypeArg

mutual

/-- The argument with `f p` in place of every parameter `p`. -/
def replace (f : Parameter → TypeArg) : TypeArg → TypeArg
  | .param p => f p
  | .named name args => .named name (replaceAll f args)

def replaceAll (f : Parameter → TypeArg) : List TypeArg → List TypeArg
  | [] => []
  | arg :: rest => replace f arg :: replaceAll f rest

end

/-! ## Substitution is replacement -/

mutual

/-- Substituting bindings replaces every parameter by what they make of it. -/
theorem subst_eq_replace (bindings : Bindings) :
    ∀ arg : TypeArg, arg.subst bindings = arg.replace bindings.apply
  | .param _ => rfl
  | .named _ args => by rw [subst, replace, substAll_eq_replaceAll bindings args]

theorem substAll_eq_replaceAll (bindings : Bindings) :
    ∀ args : List TypeArg, substAll bindings args = replaceAll bindings.apply args
  | [] => rfl
  | arg :: rest => by
    rw [substAll, replaceAll, subst_eq_replace bindings arg, substAll_eq_replaceAll bindings rest]

end

mutual

theorem replace_replace (f g : Parameter → TypeArg) :
    ∀ arg : TypeArg, (arg.replace f).replace g = arg.replace fun p => (f p).replace g
  | .param _ => rfl
  | .named _ args => by rw [replace, replace, replace, replaceAll_replaceAll f g args]

theorem replaceAll_replaceAll (f g : Parameter → TypeArg) :
    ∀ args : List TypeArg, replaceAll g (replaceAll f args) = replaceAll (fun p => (f p).replace g) args
  | [] => rfl
  | arg :: rest => by
    rw [replaceAll, replaceAll, replaceAll, replace_replace f g arg, replaceAll_replaceAll f g rest]

end

/-! ## Occurrences -/

mutual

/-- The parameters after a replacement are those of what came in place of each occurrence. -/
theorem occurrences_replace (f : Parameter → TypeArg) :
    ∀ arg : TypeArg, (arg.replace f).occurrences = arg.occurrences.flatMap fun p => (f p).occurrences
  | .param _ => by simp [replace, occurrences]
  | .named _ args => by rw [replace, occurrences, occurrences, occurrencesAll_replaceAll f args]

theorem occurrencesAll_replaceAll (f : Parameter → TypeArg) :
    ∀ args : List TypeArg,
      occurrencesAll (replaceAll f args) = (occurrencesAll args).flatMap fun p => (f p).occurrences
  | [] => rfl
  | arg :: rest => by
    rw [replaceAll, occurrencesAll, occurrencesAll, List.flatMap_append, occurrences_replace f arg,
      occurrencesAll_replaceAll f rest]

end

theorem mem_occurrences_replace {f : Parameter → TypeArg} {arg : TypeArg} {q : Parameter} :
    q ∈ (arg.replace f).occurrences ↔ ∃ p ∈ arg.occurrences, q ∈ (f p).occurrences := by
  rw [occurrences_replace, List.mem_flatMap]

mutual

theorem replace_eq_self {f : Parameter → TypeArg} :
    ∀ arg : TypeArg, (∀ p ∈ arg.occurrences, f p = .param p) → arg.replace f = arg
  | .param p, h => h p (by simp [occurrences])
  | .named _ args, h => by rw [replace, replaceAll_eq_self args fun p hp => h p hp]

theorem replaceAll_eq_self {f : Parameter → TypeArg} :
    ∀ args : List TypeArg, (∀ p ∈ occurrencesAll args, f p = .param p) → replaceAll f args = args
  | [], _ => rfl
  | arg :: rest, h => by
    rw [replaceAll, replace_eq_self arg fun p hp => h p (List.mem_append_left _ hp),
      replaceAll_eq_self rest fun p hp => h p (List.mem_append_right _ hp)]

end

@[simp] theorem mem_openParameters {arg : TypeArg} {p : Parameter} :
    p ∈ arg.openParameters ↔ p ∈ arg.occurrences :=
  mem_distinctBy_id

/-- The open parameters after a replacement, from the open parameters before it. -/
theorem openParameters_replace (f : Parameter → TypeArg) (arg : TypeArg) :
    (arg.replace f).openParameters = distinctBy id (arg.openParameters.flatMap fun p => (f p).occurrences) := by
  rw [openParameters, occurrences_replace, distinctBy_flatMap]
  rfl

/-! ## Open and closed arguments -/

mutual

theorem isOpen_eq_false_iff : ∀ arg : TypeArg, arg.isOpen = false ↔ arg.occurrences = []
  | .param _ => by simp [isOpen, occurrences]
  | .named _ args => by rw [isOpen, occurrences, isOpenAny_eq_false_iff args]

theorem isOpenAny_eq_false_iff : ∀ args : List TypeArg, isOpenAny args = false ↔ occurrencesAll args = []
  | [] => by simp [isOpenAny, occurrencesAll]
  | arg :: rest => by
    rw [isOpenAny, occurrencesAll, Bool.or_eq_false_iff, List.append_eq_nil_iff, isOpen_eq_false_iff arg,
      isOpenAny_eq_false_iff rest]

end

theorem replace_of_closed {f : Parameter → TypeArg} {arg : TypeArg} (h : arg.isOpen = false) :
    arg.replace f = arg := by
  refine replace_eq_self arg fun p hp => ?_
  rw [(isOpen_eq_false_iff arg).mp h] at hp
  exact absurd hp List.not_mem_nil

theorem closed?_eq_some_iff {arg : TypeArg} {ref : TypeRef} :
    arg.closed? = some ref ↔ arg.isOpen = false ∧ arg = ref.toArg := by
  cases arg with
  | param p => simp [closed?, isOpen, TypeRef.toArg]
  | named name args =>
    obtain ⟨name', args'⟩ := ref
    by_cases h : (named name args).isOpen = true
    · simp [closed?, h]
    · simp [closed?, h, ref?, TypeRef.toArg]

/-! ## Flat replacements -/

/-- A bare parameter or a closed argument. -/
def IsFlat (arg : TypeArg) : Prop := (∃ p, arg = .param p) ∨ arg.isOpen = false

instance : DecidablePred IsFlat
  | .param p => isTrue (.inl ⟨p, rfl⟩)
  | .named name args =>
    decidable_of_iff ((TypeArg.named name args).isOpen = false)
      ⟨.inr, fun h => h.elim (fun ⟨_, h⟩ => nomatch h) id⟩

theorem IsFlat.replace {f : Parameter → TypeArg} {arg : TypeArg} (harg : arg.IsFlat)
    (hf : ∀ p, (f p).IsFlat) : (arg.replace f).IsFlat := by
  rcases harg with ⟨p, rfl⟩ | closed
  · exact hf p
  · rw [replace_of_closed closed]
    exact .inr closed

theorem IsFlat.length_occurrences_le {arg : TypeArg} (h : arg.IsFlat) : arg.occurrences.length ≤ 1 := by
  rcases h with ⟨p, rfl⟩ | closed
  · simp [occurrences]
  · rw [(isOpen_eq_false_iff arg).mp closed]
    exact Nat.zero_le 1

theorem IsFlat.eq_param {arg : TypeArg} {p : Parameter} (h : arg.IsFlat) (hp : arg.occurrences = [p]) :
    arg = .param p := by
  rcases h with ⟨q, rfl⟩ | closed
  · simpa [occurrences] using hp
  · rw [(isOpen_eq_false_iff arg).mp closed] at hp
    exact absurd hp.symm (List.cons_ne_nil _ _)

theorem length_flatMap_le {g : Parameter → List Parameter} (short : ∀ p, (g p).length ≤ 1)
    (ps : List Parameter) : (ps.flatMap g).length ≤ ps.length := by
  induction ps with
  | nil => exact Nat.le_refl _
  | cons p ps ih =>
    have hp := short p
    rw [List.flatMap_cons, List.length_append, List.length_cons]
    omega

/-- If every element expands to at most one and the list stays the same, each expands to itself. -/
theorem eq_singleton_of_flatMap_eq {g : Parameter → List Parameter} {ps : List Parameter}
    (short : ∀ p, (g p).length ≤ 1) (h : ps.flatMap g = ps) : ∀ p ∈ ps, g p = [p] := by
  induction ps with
  | nil => intro p hp; exact absurd hp List.not_mem_nil
  | cons p ps ih =>
    rw [List.flatMap_cons] at h
    have hp := short p
    have rest := length_flatMap_le short ps
    have total := congrArg List.length h
    rw [List.length_append, List.length_cons] at total
    -- the first element must contribute its share, since the others cannot make up for it
    obtain ⟨q, hq⟩ : ∃ q, g p = [q] := List.length_eq_one_iff.mp (by omega)
    rw [hq, List.singleton_append, List.cons.injEq] at h
    obtain ⟨rfl, h⟩ := h
    intro r hr
    rcases List.mem_cons.mp hr with rfl | hr
    · exact hq
    · exact ih h r hr

/-- **A flat replacement that keeps the open parameters keeps the argument.** -/
theorem replace_eq_self_of_openParameters_eq {f : Parameter → TypeArg} {arg : TypeArg}
    (flat : ∀ p, (f p).IsFlat) (h : (arg.replace f).openParameters = arg.openParameters) :
    arg.replace f = arg := by
  have short : ∀ p, (f p).occurrences.length ≤ 1 := fun p => (flat p).length_occurrences_le
  rw [openParameters_replace] at h
  have kept := distinctBy_sublist id (arg.openParameters.flatMap fun p => (f p).occurrences)
  rw [h] at kept
  have same := (kept.eq_of_length_le (length_flatMap_le short _)).symm
  refine replace_eq_self arg fun p hp => (flat p).eq_param ?_
  exact eq_singleton_of_flatMap_eq short same p (mem_openParameters.mpr hp)

end TypeArg

end JobClosure
