import JobClosure.Proofs.CallSite.Origin
import JobClosure.Proofs.Index.Basic
import JobClosure.Proofs.Metadata.Loaded

/-!
# Who owns the parameters in a scan

A method owns the parameters that carry its identity, and those that carry the name of its declaring type.
This is all that a walk has to tell the parameters of one method from those of another.

What is scanned respects ownership (`Scanner.scanModules_owned`): a call reference is in terms of the method
it stands in, and a call site binds parameters of its callee to arguments in terms of its caller. A call site
need not bind all of them. Where the numbers of parameters and arguments differ it binds none.
-/

namespace JobClosure

/-- A method, or the type that declares it, is the owner of a parameter. -/
def MethodId.Owns (m : MethodId) (p : Parameter) : Prop :=
  p.owner = if p.ofMethod then m.text else m.declaringType

instance (m : MethodId) : DecidablePred m.Owns :=
  fun p => inferInstanceAs (Decidable (p.owner = if p.ofMethod then m.text else m.declaringType))

/-- Every parameter in an argument is owned by the method. -/
def MethodId.OwnsIn (m : MethodId) (arg : TypeArg) : Prop := ∀ p ∈ arg.occurrences, m.Owns p

/-- A call site binds parameters of its callee to arguments in terms of its caller. -/
structure CallSite.Owned (site : CallSite) : Prop where
  callee : ∀ pair ∈ site.bindings, site.callee.Owns pair.1
  caller : ∀ pair ∈ site.bindings, site.caller.OwnsIn pair.2

/-- What is found respects ownership. -/
structure ScanResult.Owned (r : ScanResult) : Prop where
  calls : ∀ call ∈ r.calls, call.entry.OwnsIn call.target
  sites : ∀ site ∈ r.callSites, site.Owned

namespace TypeArg

theorem occurrences_subset_of_mem {arg : TypeArg} {args : List TypeArg} (h : arg ∈ args) :
    arg.occurrences ⊆ occurrencesAll args := by
  induction args with
  | nil => exact absurd h List.not_mem_nil
  | cons first rest ih =>
    rcases List.mem_cons.mp h with rfl | h
    · exact List.subset_append_left _ _
    · exact List.subset_append_of_subset_right _ (ih h)

mutual

/-- Nothing occurs in a nested reference that does not occur around it. -/
theorem occurrences_subset_of_nested {ref : TypeRef} :
    ∀ arg : TypeArg, ref ∈ arg.nested → ref.toArg.occurrences ⊆ arg.occurrences
  | .param p, h => absurd h List.not_mem_nil
  | .named name args, h => by
    rcases List.mem_cons.mp h with rfl | h
    · exact List.Subset.refl _
    · exact occurrences_subset_of_nestedAll args h

theorem occurrences_subset_of_nestedAll {ref : TypeRef} :
    ∀ args : List TypeArg, ref ∈ nestedAll args → ref.toArg.occurrences ⊆ occurrencesAll args
  | [], h => absurd h List.not_mem_nil
  | arg :: rest, h => by
    rcases List.mem_append.mp h with h | h
    · exact List.subset_append_of_subset_left _ (occurrences_subset_of_nested arg h)
    · exact List.subset_append_of_subset_right _ (occurrences_subset_of_nestedAll rest h)

end

end TypeArg

namespace Scanner

/-! ## One instruction -/

/-- What is declared in the scope of a body is owned by its method. -/
theorem owns_of_declares {type : TypeDef} {method : Method} {p : Parameter}
    (hmethod : method.id.declaringType = type.fullName) (h : (scopeOf type method).Declares p) :
    method.id.Owns p := by
  unfold Scope.Declares scopeOf at h
  unfold MethodId.Owns
  by_cases hp : p.ofMethod = true
  · rw [if_pos hp] at h ⊢
    exact (Option.some.inj h.1).symm
  · rw [if_neg hp] at h ⊢
    exact h.1.trans hmethod.symm

/-- An instruction takes its parameters from its method. -/
theorem ownsIn_of_readIn {type : TypeDef} {method : Method} {instruction : Instruction}
    (hmethod : method.id.declaringType = type.fullName) (h : instruction.ReadIn (scopeOf type method)) :
    ∀ arg ∈ instruction.declaringType.toArg :: instruction.typeArguments, method.id.OwnsIn arg := by
  intro arg harg p hp
  obtain ⟨text, htext⟩ := h arg harg
  exact owns_of_declares hmethod (Scope.parse_within htext p hp)

theorem ownsIn_of_mem_candidates {entry : MethodId} {instruction : Instruction} {ref : TypeRef}
    (h : ∀ arg ∈ instruction.declaringType.toArg :: instruction.typeArguments, entry.OwnsIn arg)
    (href : ref ∈ candidates instruction) : entry.OwnsIn ref.toArg := by
  obtain ⟨arg, harg, hnested⟩ := List.mem_flatMap.mp href
  intro p hp
  exact h arg harg p (TypeArg.occurrences_subset_of_nested arg hnested hp)

theorem owned_of_mem_bindInOrder {callee caller : MethodId} {parameters : List Parameter}
    {args : List TypeArg} {pair : Parameter × TypeArg} (hparameters : ∀ p ∈ parameters, callee.Owns p)
    (hargs : ∀ arg ∈ args, caller.OwnsIn arg) (h : pair ∈ bindInOrder parameters args) :
    callee.Owns pair.1 ∧ caller.OwnsIn pair.2 := by
  obtain ⟨hparameter, harg⟩ := mem_of_mem_bindInOrder h
  exact ⟨hparameters _ hparameter, hargs _ harg⟩

theorem owns_of_mem_typeParameters {ix : Index} {callee : Method} {type : TypeDef}
    (h : ix.declaringType? callee = some type) :
    ∀ p ∈ type.genericParams.map type.parameter, callee.id.Owns p := by
  intro p hp
  obtain ⟨name, -, rfl⟩ := List.mem_map.mp hp
  exact Index.fullName_of_declaringType? h

theorem owns_of_mem_methodParameters (callee : Method) :
    ∀ p ∈ callee.genericParams.map callee.parameter, callee.id.Owns p := by
  intro p hp
  obtain ⟨name, -, rfl⟩ := List.mem_map.mp hp
  rfl

/-- **A call site binds parameters of its callee** to arguments of the instruction. -/
theorem owned_of_callSite? {s : Scanner} {caller : MethodId} {instruction : Instruction} {site : CallSite}
    (h : s.callSite? caller instruction = some site)
    (hargs : ∀ arg ∈ instruction.declaringType.toArg :: instruction.typeArguments, caller.OwnsIn arg) :
    site.Owned := by
  have howner : ∀ arg ∈ instruction.declaringType.args, caller.OwnsIn arg := by
    intro arg harg p hp
    exact hargs _ List.mem_cons_self p (TypeArg.occurrences_subset_of_mem harg hp)
  have htypeArguments : ∀ arg ∈ instruction.typeArguments, caller.OwnsIn arg :=
    fun arg harg => hargs arg (List.mem_cons_of_mem _ harg)
  -- only a method that is indexed is called; its declaring type need not be
  unfold callSite? at h
  split at h
  · cases h
  rename_i callee _
  have hbindings : ∀ pair ∈ site.bindings, site.callee.Owns pair.1 ∧ site.caller.OwnsIn pair.2 := by
    obtain rfl := Option.some.inj h
    intro pair hpair
    rcases List.mem_append.mp hpair with hpair | hpair
    · split at hpair
      · rename_i type htype
        exact owned_of_mem_bindInOrder (owns_of_mem_typeParameters htype) howner hpair
      · exact absurd hpair List.not_mem_nil
    · exact owned_of_mem_bindInOrder (owns_of_mem_methodParameters callee) htypeArguments hpair
  exact ⟨fun pair hpair => (hbindings pair hpair).1, fun pair hpair => (hbindings pair hpair).2⟩

/-- What comes from methods that carry the names of their types respects ownership. -/
theorem owned_of_comesFrom {s : Scanner} {scanned : TypeDef → Method → Prop} {r : ScanResult}
    (h : r.ComesFrom s scanned) (hown : ∀ type method, scanned type method → method.id.declaringType = type.fullName) :
    r.Owned := by
  constructor
  · intro call hcall
    obtain ⟨type, method, instruction, hscanned, hread, ref, href, rfl⟩ := h.calls call hcall
    exact ownsIn_of_mem_candidates (ownsIn_of_readIn (hown type method hscanned) hread) href
  · intro site hsite
    obtain ⟨type, method, instruction, hscanned, hread, hsite⟩ := h.sites site hsite
    exact owned_of_callSite? hsite (ownsIn_of_readIn (hown type method hscanned) hread)

/-- **A scan of loaded modules respects ownership.** -/
theorem scanModules_owned {modules : List Module} {marker : String} {state : ScanState} {r : ScanResult}
    (hloaded : ∀ m ∈ modules, m.Loaded) {scanned : List Module}
    (h : (scanModules ⟨Index.ofModules modules, marker⟩ state scanned).1 = .ok r) : r.Owned := by
  refine owned_of_comesFrom (comesFrom_scanModules h) ?_
  rintro type method ⟨⟨m, -, htype⟩, hmethod⟩
  obtain ⟨m', hm', htype'⟩ := Index.exists_mem_of_mem_typesOf htype
  exact (hloaded m' hm').holdsOwnMethods type htype' method hmethod

end Scanner

end JobClosure
