import JobClosure.Index.Basic
import JobClosure.Proofs.Distinct

/-!
# What an index holds

Nothing in an index is made up: the types that it keeps for a module are the types of a module in the list it
was made of, and what it finds under a name has this name.

If the modules have identities of their own, every module is entered with all its types
(`typesOf_ofModules`), and of all these types the first of every name is the canonical one
(`types_ofModules`). The methods are those of the canonical types (`methods_ofModules`).
-/

namespace JobClosure

namespace Index

/-! ## Modules -/

theorem modules_addType (module : String) (state : Index × List LogLine) (type : TypeDef) :
    (addType module state type).1.modules = state.1.modules := by
  obtain ⟨ix, log⟩ := state
  unfold addType
  dsimp only
  split <;> rfl

theorem modules_foldl_addType (module : String) (types : List TypeDef) (state : Index × List LogLine) :
    (types.foldl (addType module) state).1.modules = state.1.modules := by
  induction types generalizing state with
  | nil => rfl
  | cons type types ih => rw [List.foldl_cons, ih, modules_addType]

/-- A module is entered with all its types, unless its identity is taken. -/
theorem modules_addModule (state : Index × List LogLine) (m : Module) :
    (addModule state m).1.modules
      = if state.1.modules.any (·.1 == m.identity) then state.1.modules
        else state.1.modules ++ [(m.identity, m.types)] := by
  unfold addModule
  dsimp only
  split
  · rfl
  · rw [modules_foldl_addType]

theorem mem_modules_foldl_addModule {modules : List Module} {state : Index × List LogLine}
    {entry : String × List TypeDef} (h : entry ∈ (modules.foldl addModule state).1.modules) :
    entry ∈ state.1.modules ∨ ∃ m ∈ modules, entry = (m.identity, m.types) := by
  induction modules generalizing state with
  | nil => exact .inl h
  | cons m modules ih =>
    rcases ih h with h | ⟨m', hm', rfl⟩
    · rw [modules_addModule] at h
      split at h
      · exact .inl h
      · rcases List.mem_append.mp h with h | h
        · exact .inl h
        · exact .inr ⟨m, List.mem_cons_self, List.mem_singleton.mp h⟩
    · exact .inr ⟨m', List.mem_cons_of_mem m hm', rfl⟩

/-- **The types of a module in an index** are types of the modules that the index was made of. -/
theorem exists_mem_of_mem_typesOf {modules : List Module} {m : Module} {type : TypeDef}
    (h : type ∈ (ofModules modules).typesOf m) : ∃ m' ∈ modules, type ∈ m'.types := by
  unfold typesOf at h
  cases hm : (ofModules modules).modules.lookup m.identity with
  | none => simp [hm] at h
  | some types =>
    rw [hm, Option.getD_some] at h
    obtain ⟨before, after, hsplit, -⟩ := List.lookup_eq_some_iff.mp hm
    have hentry : (m.identity, types) ∈ (ofModules modules).modules := by
      rw [hsplit]
      exact List.mem_append_right _ List.mem_cons_self
    rcases mem_modules_foldl_addModule hentry with hnone | ⟨m', hm', heq⟩
    · exact absurd hnone List.not_mem_nil
    · exact ⟨m', hm', (Prod.mk.inj heq).2 ▸ h⟩

/-! ## What is entered -/

theorem types_addType (module : String) (state : Index × List LogLine) (type : TypeDef) :
    (addType module state type).1.types = addDistinct (·.fullName) state.1.types type := by
  obtain ⟨ix, log⟩ := state
  unfold addType type?
  dsimp only
  split
  · rename_i kept hkept
    have hname : kept.fullName = type.fullName := eq_of_beq (List.find?_some hkept :)
    rw [addDistinct_of_mem (hname ▸ List.mem_map_of_mem (List.mem_of_find?_eq_some hkept))]
  · rename_i hnone
    rw [addDistinct_of_not_mem (find?_key_eq_none_iff.mp hnone)]

theorem types_foldl_addType (module : String) (types : List TypeDef) (state : Index × List LogLine) :
    (types.foldl (addType module) state).1.types = types.foldl (addDistinct (·.fullName)) state.1.types := by
  induction types generalizing state with
  | nil => rfl
  | cons type types ih => rw [List.foldl_cons, ih, types_addType, List.foldl_cons]

theorem types_eq_addModule {state : Index × List LogLine}
    (h : state.1.types = distinctBy (·.fullName) state.1.allTypes) (m : Module) :
    (addModule state m).1.types = distinctBy (·.fullName) (addModule state m).1.allTypes := by
  rw [allTypes, modules_addModule]
  obtain ⟨ix, log⟩ := state
  unfold addModule
  dsimp only at h ⊢
  split
  · exact h
  · rw [types_foldl_addType, List.flatMap_append, List.flatMap_singleton, distinctBy_append]
    exact congrArg (m.types.foldl (addDistinct (·.fullName))) h

/-- **The types that an index finds** are the first ones of every name among those that it holds. -/
theorem types_eq_distinctBy_allTypes (modules : List Module) :
    (ofModules modules).types = distinctBy (·.fullName) (ofModules modules).allTypes := by
  have hfold : ∀ state : Index × List LogLine, state.1.types = distinctBy (·.fullName) state.1.allTypes →
      (modules.foldl addModule state).1.types
        = distinctBy (·.fullName) (modules.foldl addModule state).1.allTypes := by
    induction modules with
    | nil => exact fun _ h => h
    | cons m modules ih => exact fun state h => ih _ (types_eq_addModule h m)
  exact hfold ({}, []) rfl

/-- No name is found twice. -/
theorem nodup_fullName_types (modules : List Module) : ((ofModules modules).types.map (·.fullName)).Nodup := by
  rw [types_eq_distinctBy_allTypes]
  exact nodup_map_distinctBy _ _

/-- Modules whose identities are new are entered. -/
theorem modules_foldl_addModule_of_new {modules : List Module} (state : Index × List LogLine)
    (hidentities : (state.1.modules.map (·.1) ++ modules.map Module.identity).Nodup) :
    (modules.foldl addModule state).1.modules
      = state.1.modules ++ modules.map (fun m => (m.identity, m.types)) := by
  induction modules generalizing state with
  | nil => exact (List.append_nil _).symm
  | cons m modules ih =>
    have hany : state.1.modules.any (·.1 == m.identity) = false := by
      rw [List.any_eq_false]
      intro entry hentry heq
      exact (List.nodup_append.mp hidentities).2.2 _ (List.mem_map_of_mem hentry) _ List.mem_cons_self
        (eq_of_beq heq)
    have hmodules : (addModule state m).1.modules = state.1.modules ++ [(m.identity, m.types)] := by
      rw [modules_addModule, hany, if_neg Bool.false_ne_true]
    rw [List.foldl_cons, ih (addModule state m), hmodules, List.append_assoc]
    · rfl
    · rw [hmodules, List.map_append, List.append_assoc]
      exact hidentities

section

variable {modules : List Module}

theorem modules_ofModules (h : (modules.map Module.identity).Nodup) :
    (ofModules modules).modules = modules.map fun m => (m.identity, m.types) :=
  modules_foldl_addModule_of_new ({}, []) h

theorem allTypes_ofModules (h : (modules.map Module.identity).Nodup) :
    (ofModules modules).allTypes = modules.flatMap (·.types) := by
  rw [allTypes, modules_ofModules h, List.flatMap_map]

/-- **The canonical types** are the first ones of every name. -/
theorem types_ofModules (h : (modules.map Module.identity).Nodup) :
    (ofModules modules).types = distinctBy (·.fullName) (modules.flatMap (·.types)) := by
  rw [types_eq_distinctBy_allTypes, allTypes_ofModules h]

/-- **Every module is indexed with its own types.** -/
theorem typesOf_ofModules (h : (modules.map Module.identity).Nodup) {m : Module} (hm : m ∈ modules) :
    (ofModules modules).typesOf m = m.types := by
  obtain ⟨before, after, rfl⟩ := List.append_of_mem hm
  have hlookup : (ofModules (before ++ m :: after)).modules.lookup m.identity = some m.types := by
    rw [modules_ofModules h]
    refine List.lookup_eq_some_iff.mpr ⟨_, _, List.map_append, fun entry hentry => ?_⟩
    obtain ⟨other, hother, rfl⟩ := List.mem_map.mp hentry
    rw [List.map_append, List.map_cons, List.nodup_append] at h
    exact bne_iff_ne.mpr (Ne.symm (h.2.2 _ (List.mem_map_of_mem hother) _ List.mem_cons_self))
  rw [typesOf, hlookup, Option.getD_some]

end

/-! ## Methods -/

/-- The methods of an index are the first ones of every identity on its canonical types. -/
def MethodsOfTypes (ix : Index) : Prop := ix.methods = distinctBy (·.id) (ix.types.flatMap (·.methods))

theorem MethodsOfTypes.addType {state : Index × List LogLine} (h : state.1.MethodsOfTypes) (module : String)
    (type : TypeDef) : (Index.addType module state type).1.MethodsOfTypes := by
  obtain ⟨ix, log⟩ := state
  unfold Index.addType
  dsimp only
  split
  · exact h
  · show type.methods.foldl (addDistinct (·.id)) ix.methods
      = distinctBy (·.id) ((ix.types ++ [type]).flatMap (·.methods))
    rw [List.flatMap_append, List.flatMap_singleton, distinctBy_append, ← h]

theorem MethodsOfTypes.foldl_addType {state : Index × List LogLine} (h : state.1.MethodsOfTypes) (module : String)
    (types : List TypeDef) : (types.foldl (Index.addType module) state).1.MethodsOfTypes := by
  induction types generalizing state with
  | nil => exact h
  | cons type types ih => exact ih (h.addType module type)

theorem MethodsOfTypes.foldl_addModule {state : Index × List LogLine} (h : state.1.MethodsOfTypes)
    (modules : List Module) : (modules.foldl addModule state).1.MethodsOfTypes := by
  induction modules generalizing state with
  | nil => exact h
  | cons m modules ih =>
    refine ih ?_
    unfold addModule
    dsimp only
    split
    · exact h
    · have hentered : MethodsOfTypes { state.1 with modules := state.1.modules ++ [(m.identity, m.types)] } := h
      exact @MethodsOfTypes.foldl_addType (_, state.2) hentered m.name m.types

theorem methods_ofModules (modules : List Module) :
    (ofModules modules).methods = distinctBy (·.id) ((ofModules modules).types.flatMap (·.methods)) :=
  @MethodsOfTypes.foldl_addModule ({}, []) rfl modules

/-! ## Definitions by name -/

theorem fullName_of_type? {ix : Index} {name : String} {type : TypeDef} (h : ix.type? name = some type) :
    type.fullName = name := by
  simpa using List.find?_some h

theorem type?_eq_find? (modules : List Module) (name : String) :
    (ofModules modules).type? name = (ofModules modules).allTypes.find? (·.fullName == name) := by
  rw [type?, types_eq_distinctBy_allTypes, find?_distinctBy]

/-- A definition that is found stands in a module. -/
theorem exists_module_of_type? {modules : List Module} {name : String} {type : TypeDef}
    (h : (ofModules modules).type? name = some type) : ∃ m ∈ modules, type ∈ m.types := by
  rw [type?_eq_find?] at h
  obtain ⟨entry, hentry, hmem⟩ := List.mem_flatMap.mp (List.mem_of_find?_eq_some h)
  rcases mem_modules_foldl_addModule hentry with hnone | ⟨m, hm, rfl⟩
  · exact absurd hnone List.not_mem_nil
  · exact ⟨m, hm, hmem⟩

/-- A method is found on the type that is asked for. -/
theorem exists_type_of_findMethod {ix : Index} {identity : Identity} {name : String}
    {parameters : Option (List String)} {arity : Option Nat} {method : Method}
    (h : ix.findMethod identity name parameters arity = .ok method) :
    ∃ type, ix.typeOf? identity = some type ∧ method ∈ type.methods := by
  unfold findMethod at h
  split at h
  · exact nomatch h
  · rename_i type htype
    refine ⟨type, htype, ?_⟩
    split at h
    · rename_i best hbest
      obtain rfl := Except.ok.inj h
      unfold bestOf at hbest
      rcases Option.or_eq_some_iff.mp hbest with hfind | ⟨-, hhead⟩
      · exact (List.mem_filter.mp (List.mem_of_find?_eq_some hfind)).1
      · exact (List.mem_filter.mp (List.mem_of_head? hhead)).1
    · exact nomatch h
    · exact nomatch h

theorem fullName_of_declaringType? {ix : Index} {method : Method} {type : TypeDef}
    (h : ix.declaringType? method = some type) : type.fullName = method.id.declaringType :=
  fullName_of_type? h

end Index

end JobClosure
