import JobClosure.Index.Interfaces
import JobClosure.Proofs.Index.Basic

/-!
# Bodies play no part in lookups

An index keeps the bodies of methods, but it never looks into them. Modules whose methods have other bodies make an
index with the same types, interfaces and methods up to these bodies (`Index.rebodied_ofModules`), and whatever is
found in the one index is found in the other, with the bodies that it has there.
-/

namespace JobClosure

variable {body : TypeDef → Method → Option (List Form)}

/-- A method with another body. -/
def Method.withBody (method : Method) (body : Option (List Form)) : Method := { method with body }

/-- The type with other bodies for its methods. -/
def TypeDef.rebody (body : TypeDef → Method → Option (List Form)) (type : TypeDef) : TypeDef :=
  { type with methods := type.methods.map fun method => method.withBody (body type method) }

def Module.rebody (body : TypeDef → Method → Option (List Form)) (m : Module) : Module :=
  { m with types := m.types.map (TypeDef.rebody body) }

namespace Index

/-- `ix'` holds what `ix` holds, with other bodies. -/
structure Rebodied (body : TypeDef → Method → Option (List Form)) (ix ix' : Index) : Prop where
  modules : ix'.modules = ix.modules.map fun entry => (entry.1, entry.2.map (TypeDef.rebody body))
  types : ix'.types = ix.types.map (TypeDef.rebody body)

/-- **Modules with other bodies make an index with other bodies.** -/
theorem rebodied_ofModules (body : TypeDef → Method → Option (List Form)) (modules : List Module) :
    Rebodied body (ofModules modules) (ofModules (modules.map (Module.rebody body))) := by
  -- a module is entered or not for its identity, which has nothing to do with bodies
  have hfold : ∀ state state' : Index × List LogLine,
      state'.1.modules = state.1.modules.map (fun entry => (entry.1, entry.2.map (TypeDef.rebody body))) →
      ((modules.map (Module.rebody body)).foldl addModule state').1.modules
        = (modules.foldl addModule state).1.modules.map fun entry => (entry.1, entry.2.map (TypeDef.rebody body)) := by
    induction modules with
    | nil => exact fun _ _ h => h
    | cons m rest ih =>
      intro state state' h
      refine ih (addModule state m) (addModule state' (m.rebody body)) ?_
      have hany : (state'.1.modules.any fun entry => entry.1 == (m.rebody body).identity)
          = state.1.modules.any fun entry => entry.1 == m.identity := by
        rw [h, List.any_map]
        rfl
      rw [modules_addModule, modules_addModule, hany]
      split
      · exact h
      · rw [List.map_append, h]
        rfl
  have hmodules := hfold ({}, []) ({}, []) rfl
  refine ⟨hmodules, ?_⟩
  rw [types_eq_distinctBy_allTypes, types_eq_distinctBy_allTypes]
  have hall : (ofModules (modules.map (Module.rebody body))).allTypes
      = (ofModules modules).allTypes.map (TypeDef.rebody body) := by
    show ((modules.map (Module.rebody body)).foldl addModule ({}, [])).1.modules.flatMap (·.2) = _
    rw [hmodules, List.flatMap_map, allTypes, List.map_flatMap]
    rfl
  rw [hall]
  exact foldl_addDistinct_map (ofModules modules).allTypes []

namespace Rebodied

variable {ix ix' : Index}

theorem type? (h : Rebodied body ix ix') (name : String) : ix'.type? name = (ix.type? name).map (TypeDef.rebody body) := by
  rw [Index.type?, h.types, List.find?_map]
  rfl

theorem typesOf (h : Rebodied body ix ix') (m : Module) :
    ix'.typesOf (m.rebody body) = (ix.typesOf m).map (TypeDef.rebody body) := by
  have hlookup : ∀ entries : List (String × List TypeDef), ∀ identity : String,
      (entries.map fun entry => (entry.1, entry.2.map (TypeDef.rebody body))).lookup identity
        = (entries.lookup identity).map (List.map (TypeDef.rebody body)) := by
    intro entries identity
    induction entries with
    | nil => rfl
    | cons entry rest ih =>
      rw [List.map_cons, List.lookup_cons, List.lookup_cons, ih]
      cases identity == entry.1 <;> rfl
  rw [Index.typesOf, h.modules, hlookup, Index.typesOf]
  show (((ix.modules.lookup m.identity).map _).getD []) = _
  cases ix.modules.lookup m.identity <;> rfl

/-! ## Interfaces -/

theorem namedInterfaces (h : Rebodied body ix ix') (type : TypeDef) :
    ix'.namedInterfaces (type.rebody body) = (ix.namedInterfaces type).map (TypeDef.rebody body) := by
  rw [Index.namedInterfaces, Index.namedInterfaces, List.map_filterMap]
  exact List.filterMap_congr fun ref _ => h.type? ref.name

theorem baseType? (h : Rebodied body ix ix') (type : TypeDef) :
    ix'.baseType? (type.rebody body) = (ix.baseType? type).map (TypeDef.rebody body) := by
  rw [Index.baseType?, Index.baseType?]
  show type.base.bind (fun ref => ix'.type? ref.name) = _
  cases type.base with
  | none => rfl
  | some ref => exact h.type? ref.name

theorem closeInterfaces (h : Rebodied body ix ix') (remaining : List String) (found pending : List TypeDef) :
    ix'.closeInterfaces remaining (found.map (TypeDef.rebody body)) (pending.map (TypeDef.rebody body))
      = (ix.closeInterfaces remaining found pending).map (TypeDef.rebody body) := by
  induction remaining, found, pending using closeInterfaces.induct ix with
  | case1 remaining found =>
    rw [List.map_nil, Index.closeInterfaces, Index.closeInterfaces]
  | case2 remaining found type pending hmem interfaces ih =>
    rw [List.map_cons, Index.closeInterfaces, Index.closeInterfaces, dif_pos hmem]
    have hmem' : (type.rebody body).fullName ∈ remaining := hmem
    rw [dif_pos hmem']
    dsimp only
    rw [← ih, h.namedInterfaces, h.baseType?, foldl_addDistinct_map]
    simp only [List.map_append, Option.toList_map]
    rfl
  | case3 remaining found type pending hmem ih =>
    rw [List.map_cons, Index.closeInterfaces, Index.closeInterfaces, dif_neg hmem]
    have hmem' : (type.rebody body).fullName ∉ remaining := hmem
    rw [dif_neg hmem']
    exact ih

/-- **The interfaces of a type** are those that it has with other bodies. -/
theorem interfaceClosure (h : Rebodied body ix ix') (type : TypeDef) :
    ix'.interfaceClosure (type.rebody body) = (ix.interfaceClosure type).map (TypeDef.rebody body) := by
  have hnames : ix'.types.map (·.fullName) = ix.types.map (·.fullName) := by
    rw [h.types, List.map_map]
    rfl
  rw [Index.interfaceClosure, hnames]
  exact h.closeInterfaces _ [] [type]

/-! ## Methods -/

/-- The best overload is the one with the same identity and as many parameters. -/
theorem bestOf_map (body : Method → Option (List Form)) (candidates : List Method) (arity : Option Nat) :
    bestOf (candidates.map fun method => method.withBody (body method)) arity
      = (bestOf candidates arity).map fun method => method.withBody (body method) := by
  rw [bestOf, bestOf, List.find?_map, List.head?_map, Option.map_or]
  rfl

theorem overloads_rebody (type : TypeDef) (name : String) (parameters : Option (List String)) :
    overloads (type.rebody body) name parameters
      = (overloads type name parameters).map fun method => method.withBody (body type method) := by
  rw [overloads, overloads]
  show List.filter _ (type.methods.map _) = _
  rw [List.filter_map]
  rfl

/-- **The method that a name leads to** is the same up to its body. -/
theorem findMethod (h : Rebodied body ix ix') (identity : Identity) (name : String)
    (parameters : Option (List String)) (arity : Option Nat) :
    (∃ fault, ix.findMethod identity name parameters arity = .error fault ∧
        ix'.findMethod identity name parameters arity = .error fault) ∨
      ∃ method other, ix.findMethod identity name parameters arity = .ok method ∧
        ix'.findMethod identity name parameters arity = .ok (method.withBody other) := by
  have htype : ix'.typeOf? identity = (ix.typeOf? identity).map (TypeDef.rebody body) := by
    rw [typeOf?, typeOf?]
    cases identity.canonicalName with
    | none => rfl
    | some name => exact h.type? name
  rw [Index.findMethod, Index.findMethod, htype]
  cases ix.typeOf? identity with
  | none => exact .inl ⟨_, rfl, rfl⟩
  | some type =>
    dsimp only [Option.map_some]
    rw [overloads_rebody, overloads_rebody, bestOf_map]
    cases bestOf (overloads type name parameters) arity with
    | some method => exact .inr ⟨method, _, rfl, rfl⟩
    | none =>
      cases overloads type name none with
      | nil => exact .inl ⟨_, rfl, rfl⟩
      | cons first rest => cases parameters <;> exact .inl ⟨_, rfl, rfl⟩

end Rebodied

end Index

end JobClosure
