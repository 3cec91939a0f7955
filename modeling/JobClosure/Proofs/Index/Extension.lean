import JobClosure.Proofs.Index.Interfaces

/-!
# More modules

An index grows if it finds under every name what it found before, and perhaps something under other names
(`Index.Grows`). More modules at the end of a list make the index grow, since the first definition of a name counts
(`Index.grows_append`), and what it holds for the modules before them stays as it was (`Index.typesOf_append`). So no
module that comes late, whether it repeats a name or a whole module, changes what a name stands for.

What was found of a definition is found again: its supertypes, the interfaces that it implements, whether it is a job,
and the overload that a call chooses. Only that a definition or an interface is missing may change.
-/

namespace JobClosure

namespace Index

/-- What the one index finds under a name, the other one finds too. -/
def Grows (ix ix' : Index) : Prop := ∀ name type, ix.type? name = some type → ix'.type? name = some type

/-! ## Modules at the end of a list -/

/-- Adding modules leaves those that were entered where they are. -/
theorem prefix_modules_foldl_addModule (modules : List Module) (state : Index × List LogLine) :
    state.1.modules <+: (modules.foldl addModule state).1.modules := by
  induction modules generalizing state with
  | nil => exact List.prefix_rfl
  | cons m modules ih =>
    refine List.IsPrefix.trans ?_ (ih (addModule state m))
    rw [modules_addModule]
    split
    · exact List.prefix_rfl
    · exact List.prefix_append _ _

/-- A module that was added has an entry under its identity. -/
theorem identity_mem_foldl_addModule {modules : List Module} {m : Module} (hm : m ∈ modules)
    (state : Index × List LogLine) : m.identity ∈ (modules.foldl addModule state).1.modules.map (·.1) := by
  induction modules generalizing state with
  | nil => exact absurd hm List.not_mem_nil
  | cons first modules ih =>
    rcases List.mem_cons.mp hm with rfl | hm
    · refine ((prefix_modules_foldl_addModule modules _).map (·.1)).subset ?_
      rw [modules_addModule]
      split
      · rename_i hany
        obtain ⟨entry, hentry, hidentity⟩ := List.any_eq_true.mp hany
        exact List.mem_map.mpr ⟨entry, hentry, eq_of_beq hidentity⟩
      · rw [List.map_append]
        exact List.mem_append_right _ List.mem_cons_self
    · exact ih hm (addModule state first)

section

variable (modules extra : List Module)

theorem prefix_modules_append : (ofModules modules).modules <+: (ofModules (modules ++ extra)).modules := by
  show (modules.foldl addModule ({}, [])).1.modules <+: ((modules ++ extra).foldl addModule ({}, [])).1.modules
  rw [List.foldl_append]
  exact prefix_modules_foldl_addModule extra _

/-- **More modules make an index grow.** -/
theorem grows_append : (ofModules modules).Grows (ofModules (modules ++ extra)) := by
  intro name type htype
  obtain ⟨later, hlater⟩ := prefix_modules_append modules extra
  rw [type?_eq_find?, allTypes] at htype ⊢
  rw [← hlater, List.flatMap_append, List.find?_append, htype, Option.some_or]

variable {modules} in
/-- **More modules leave the types of a module** as they were. -/
theorem typesOf_append {m : Module} (hm : m ∈ modules) :
    (ofModules (modules ++ extra)).typesOf m = (ofModules modules).typesOf m := by
  obtain ⟨later, hlater⟩ := prefix_modules_append modules extra
  have hentry : m.identity ∈ (ofModules modules).modules.map (·.1) := identity_mem_foldl_addModule hm ({}, [])
  rw [typesOf, typesOf, ← hlater, List.lookup_append, Option.or_of_isSome]
  obtain ⟨entry, hmem, hidentity⟩ := List.mem_map.mp hentry
  exact List.lookup_isSome_iff.mpr ⟨entry, hmem, beq_iff_eq.mpr hidentity.symm⟩

theorem flatMap_typesOf_append : (modules ++ extra).flatMap (ofModules (modules ++ extra)).typesOf
    = modules.flatMap (ofModules modules).typesOf ++ extra.flatMap (ofModules (modules ++ extra)).typesOf := by
  rw [List.flatMap_append, List.flatMap_congr fun m hm => typesOf_append extra hm]

end

/-! ## What is found again -/

variable {ix ix' : Index} {type next interface : TypeDef} {marker : String} {ref : TypeRef}

theorem Grows.supertype (h : ix.Grows ix') (hnext : ix.Supertype type next) : ix'.Supertype type next := by
  cases hnext with
  | base ref named defined => exact .base ref named (h _ _ defined)
  | interface ref named defined => exact .interface ref named (h _ _ defined)

/-- A type does not lose an interface. -/
theorem Grows.implements (h : ix.Grows ix') (himplements : ix.Implements type interface) :
    ix'.Implements type interface := by
  obtain ⟨heir, hlead, ref, href, hdefined⟩ := himplements
  exact ⟨heir, Relation.ReflTransGen.mono (fun _ _ => h.supertype) _ _ hlead, ref, href, h _ _ hdefined⟩

theorem Grows.jobType (h : ix.Grows ix') (hjob : ix.JobType marker type) : ix'.JobType marker type := by
  obtain ⟨interface, himplements, hmarker⟩ := hjob.marked
  exact ⟨hjob.noInterface, interface, h.implements himplements, hmarker⟩

/-- **An open job stays one.** -/
theorem Grows.openJob (h : ix.Grows ix') (hjob : ix.OpenJob marker ref) : ix'.OpenJob marker ref := by
  obtain ⟨type, htype, hjob'⟩ := hjob.template
  exact ⟨hjob.parameter, type, h _ _ htype, h.jobType hjob'⟩

theorem Grows.typeOf? (h : ix.Grows ix') {identity : Identity} (htype : ix.typeOf? identity = some type) :
    ix'.typeOf? identity = some type := by
  obtain ⟨name, hname, htype⟩ := Option.bind_eq_some_iff.mp htype
  exact Option.bind_eq_some_iff.mpr ⟨name, hname, h _ _ htype⟩

/-- **The overload that is found** is found again: it is chosen among the methods of one definition. -/
theorem Grows.findMethod (h : ix.Grows ix') {identity : Identity} {name : String} {parameters : Option (List String)}
    {arity : Option Nat} {method : Method} (hfound : ix.findMethod identity name parameters arity = .ok method) :
    ix'.findMethod identity name parameters arity = .ok method := by
  obtain ⟨type, htype, -⟩ := exists_type_of_findMethod hfound
  rw [Index.findMethod, htype] at hfound
  rw [Index.findMethod, h.typeOf? htype]
  exact hfound

end Index

end JobClosure
