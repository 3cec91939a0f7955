import JobClosure.Proofs.CallSite.Types

/-!
# Types that nothing names

A type without methods adds nothing to an analysis if its name does not occur in it. No lookup leads to the
type: every name that is looked up occurs in an instruction, or is that of a supertype or of the owner of a
method. And there is nothing to scan in it. So modules in which such types are **hidden** have the same
analysis (`survey_of_hides`).
-/

namespace JobClosure

variable {hidden : String → Bool}

/-- A name that is not hidden. -/
def Visible (hidden : String → Bool) (name : String) : Prop := hidden name = false

/-- A module without its types of hidden names. -/
structure Module.Hides (hidden : String → Bool) (m m' : Module) : Prop where
  identity : m.identity = m'.identity
  types : m.types = m'.types.filter fun type => !hidden type.fullName

/-- A type that leads to visible names only. -/
structure TypeDef.LeadsTo (known : String → Prop) (type : TypeDef) : Prop where
  keeps : type.KeepsTo known
  bodies : Scanner.NamesInBodies known type

namespace Index

/-- The entry of a module without its types of hidden names. -/
def hideIn (hidden : String → Bool) (entry : String × List TypeDef) : String × List TypeDef :=
  (entry.1, entry.2.filter fun type => !hidden type.fullName)

variable {modules modules' : List Module}

theorem modules_of_hides (h : List.Forall₂ (Module.Hides hidden) modules modules') :
    (ofModules modules).modules = (ofModules modules').modules.map (hideIn hidden) := by
  have hfold : ∀ state state' : Index × List LogLine, state.1.modules = state'.1.modules.map (hideIn hidden) →
      (modules.foldl addModule state).1.modules
        = (modules'.foldl addModule state').1.modules.map (hideIn hidden) := by
    induction h with
    | nil => exact fun _ _ hstate => hstate
    | @cons m m' rest rest' hfirst _ ih =>
      intro state state' hstate
      refine ih _ _ ?_
      have hany : state.1.modules.any (·.1 == m.identity) = state'.1.modules.any (·.1 == m'.identity) := by
        rw [hstate, List.any_map, hfirst.identity]
        rfl
      rw [modules_addModule, modules_addModule, hany]
      split
      · exact hstate
      · rw [List.map_append, hstate, List.map_singleton, hfirst.identity, hfirst.types]
        rfl
  exact hfold ({}, []) ({}, []) rfl

theorem allTypes_of_hides (h : List.Forall₂ (Module.Hides hidden) modules modules') :
    (ofModules modules).allTypes = (ofModules modules').allTypes.filter fun type => !hidden type.fullName := by
  rw [allTypes, allTypes, modules_of_hides h, List.flatMap_map, List.filter_flatMap]
  rfl

theorem typesOf_of_hides (h : List.Forall₂ (Module.Hides hidden) modules modules') {m m' : Module}
    (hm : m.Hides hidden m') :
    (ofModules modules).typesOf m
      = ((ofModules modules').typesOf m').filter fun type => !hidden type.fullName := by
  rw [typesOf, typesOf, modules_of_hides h, hm.identity]
  generalize (ofModules modules').modules = entries
  induction entries with
  | nil => rfl
  | cons entry rest ih =>
    obtain ⟨identity, types⟩ := entry
    rw [List.map_cons, hideIn, List.lookup_cons, List.lookup_cons]
    cases m'.identity == identity with
    | true => rfl
    | false => exact ih

/-- **What is hidden changes no lookup** of a visible name. -/
theorem agrees_of_hides (h : List.Forall₂ (Module.Hides hidden) modules modules')
    (hleads : ∀ m ∈ modules, ∀ type ∈ m.types, type.LeadsTo (Visible hidden)) :
    (ofModules modules).Agrees (Visible hidden) (ofModules modules') := by
  have htype : ∀ name, Visible hidden name → (ofModules modules).type? name = (ofModules modules').type? name := by
    intro name hname
    rw [type?_eq_find?, type?_eq_find?, allTypes_of_hides h, List.find?_filter]
    refine congrArg (fun p => List.find? p (ofModules modules').allTypes) (funext fun type => ?_)
    by_cases heq : type.fullName = name
    · have hname : hidden name = false := hname
      simp [heq, hname]
    · simp [heq]
  refine ⟨htype, fun name hname => ?_, fun name type hname hfound => ?_⟩
  · -- each name is there once or not at all, so it is counted by the lookup
    have hcount : ∀ ms : List Module, ((ofModules ms).types.map (·.fullName)).count name
        = if ((ofModules ms).type? name).isSome then 1 else 0 := by
      intro ms
      have hnodup : ((ofModules ms).types.map (·.fullName)).Nodup := by
        rw [types_eq_distinctBy_allTypes]
        exact nodup_map_distinctBy _ _
      have hiff : name ∈ (ofModules ms).types.map (·.fullName) ↔ ((ofModules ms).type? name).isSome := by
        simp [type?, List.find?_isSome]
      rw [hnodup.count]
      exact if_congr hiff rfl rfl
    rw [hcount, hcount, htype name hname]
  · obtain ⟨m, hm, hmem⟩ := exists_module_of_type? hfound
    exact (hleads m hm type hmem).keeps

end Index

namespace Scanner

variable {s s' : Scanner}

/-- There is nothing to find in a type without methods. -/
theorem findsIn_of_no_methods (s : Scanner) {type : TypeDef} (h : type.methods = []) : s.findsIn type = .ok {} := by
  rw [findsIn, scanType, h]
  rfl

/-- What finds nothing may be left out. -/
theorem together_mapM_filter {f g : TypeDef → Except Error ScanResult} {p : TypeDef → Bool} {types : List TypeDef}
    (hsame : ∀ type ∈ types, p type = true → g type = f type)
    (hnone : ∀ type ∈ types, p type = false → f type = .ok {}) :
    together <$> (types.filter p).mapM g = together <$> types.mapM f := by
  induction types with
  | nil => rfl
  | cons type rest ih =>
    obtain ⟨hsame, hsames⟩ := List.forall_mem_cons.mp hsame
    obtain ⟨hnone, hnones⟩ := List.forall_mem_cons.mp hnone
    have hrest := ih hsames hnones
    cases hp : p type with
    | true =>
      rw [List.filter_cons_of_pos hp, List.mapM_cons, List.mapM_cons, hsame hp]
      cases f type with
      | error error => rfl
      | ok found =>
        -- the two rests succeed with the same finds or fail with the same error
        generalize (rest.filter p).mapM g = kept at hrest ⊢
        generalize rest.mapM f = all at hrest ⊢
        cases kept with
        | error error =>
          cases all with
          | error other => exact hrest
          | ok _ => exact nomatch hrest
        | ok kept =>
          cases all with
          | error other => exact nomatch hrest
          | ok all => exact congrArg (fun more => Except.ok (found ++ more)) (Except.ok.inj hrest)
    | false =>
      rw [List.filter_cons_of_neg (by simp [hp]), hrest, List.mapM_cons, hnone hp]
      cases rest.mapM f with
      | error error => rfl
      | ok finds => rfl

end Scanner

section

variable {marker : String} {modules modules' : List Module}

/-- **Types that nothing names and that have no methods play no part in an analysis.** -/
theorem survey_of_hides (h : List.Forall₂ (Module.Hides hidden) modules modules')
    (hleads : ∀ m ∈ modules, ∀ type ∈ m.types, type.LeadsTo (Visible hidden))
    (hsilent : ∀ m ∈ modules', ∀ type ∈ m.types, hidden type.fullName = true → type.methods = []) :
    survey marker modules = survey marker modules' := by
  have hagrees : Scanner.Agrees (Visible hidden) ⟨Index.ofModules modules, marker⟩
      ⟨Index.ofModules modules', marker⟩ := ⟨Index.agrees_of_hides h hleads, rfl⟩
  have hmodule : ∀ m m', m.Hides hidden m' →
      (Scanner.scanModule ⟨Index.ofModules modules, marker⟩ {} m).1
        = (Scanner.scanModule ⟨Index.ofModules modules', marker⟩ {} m').1 := by
    intro m m' hm
    have htypes := Index.typesOf_of_hides h hm
    refine congrArg (Except.map ScanResult.dedupeCalls) ?_
    rw [Scanner.scanTypes_eq (ScanState.ready_start _), Scanner.scanTypes_eq (ScanState.ready_start _)]
    show Scanner.together <$> ((Index.ofModules modules).typesOf m).mapM _ = _
    rw [htypes]
    -- a visible type finds the same in both indexes, a hidden one has no methods to find anything in
    refine Scanner.together_mapM_filter (fun type htype hvisible => ?_) fun type htype hhidden => ?_
    · have hkept : type ∈ (Index.ofModules modules).typesOf m :=
        htypes ▸ List.mem_filter.mpr ⟨htype, hvisible⟩
      obtain ⟨m₀, hm₀, hmem⟩ := Index.exists_mem_of_mem_typesOf hkept
      exact hagrees.findsIn (hleads m₀ hm₀ type hmem).bodies
    · obtain ⟨m₀, hm₀, hmem⟩ := Index.exists_mem_of_mem_typesOf htype
      exact Scanner.findsIn_of_no_methods _ (hsilent m₀ hm₀ type hmem (by simpa using hhidden))
  show Except.map ScanResult.dedupeCalls (Scanner.scanEach _ {} modules).1
    = Except.map ScanResult.dedupeCalls (Scanner.scanEach _ {} modules').1
  rw [Scanner.scanEach_eq _ (ScanState.ready_start _), Scanner.scanEach_eq _ (ScanState.ready_start _),
    mapM_congr_of_forall₂ (h.imp hmodule)]

end

end JobClosure
