import JobClosure.Index.Interfaces
import JobClosure.Proofs.Index.Basic
import Mathlib.Data.List.Nodup
import Mathlib.Data.List.Perm.Basic

/-!
# Indexes that find the same

Two indexes agree on some names if they find the same definitions under them, and if what they find there
names only such names again (`Index.Agrees`). That is all that lookups, base types and interfaces of these
definitions depend on: a definition that nobody reaches plays no part.

If the modules of a list have identities of their own and no type name is declared twice, nothing is left
out of their index: it holds all types one after the other (`types_of_declaredOnce`). In another order of the
modules the same types are found under all names (`agrees_of_perm`).
-/

namespace JobClosure

/-- The modules of a list have identities of their own, and no type name is declared twice. -/
structure DeclaredOnce (modules : List Module) : Prop where
  identities : (modules.map Module.identity).Nodup
  names : ((modules.flatMap (·.types)).map (·.fullName)).Nodup

theorem DeclaredOnce.perm {modules modules' : List Module} (h : DeclaredOnce modules)
    (hperm : modules.Perm modules') : DeclaredOnce modules' where
  identities := h.identities.perm (hperm.map _)
  names := h.names.perm ((hperm.flatMap_right _).map _)

/-- What a lookup goes on to from a definition has `known` names: its supertypes, and the types that its methods
are said to be declared by. -/
structure TypeDef.KeepsTo (known : String → Prop) (type : TypeDef) : Prop where
  interfaces : ∀ ref ∈ type.interfaces, known ref.name
  base : ∀ ref ∈ type.base, known ref.name
  methods : ∀ method ∈ type.methods, known method.id.declaringType

/-- Every name is known. -/
def anyName (_name : String) : Prop := True

theorem TypeDef.keepsTo_anyName (type : TypeDef) : type.KeepsTo anyName :=
  ⟨fun _ _ => trivial, fun _ _ => trivial, fun _ _ => trivial⟩

namespace Index

variable {modules modules' : List Module}

theorem types_of_declaredOnce (h : DeclaredOnce modules) : (ofModules modules).types = modules.flatMap (·.types) := by
  rw [types_ofModules h.identities, distinctBy_eq_self h.names]

/-! ## Agreement on some names -/

/-- Two indexes find the same definitions under `known` names, have these names equally often, and what they find
keeps to them. -/
structure Agrees (known : String → Prop) (ix ix' : Index) : Prop where
  type? : ∀ name, known name → ix.type? name = ix'.type? name
  names : ∀ name, known name →
    (ix.types.map (·.fullName)).count name = (ix'.types.map (·.fullName)).count name
  keeps : ∀ name type, known name → ix.type? name = some type → type.KeepsTo known

theorem Agrees.refl (ix : Index) : ix.Agrees anyName ix :=
  ⟨fun _ _ => rfl, fun _ _ => rfl, fun _ type _ _ => type.keepsTo_anyName⟩

theorem Agrees.symm {known : String → Prop} {ix ix' : Index} (h : ix.Agrees known ix') : ix'.Agrees known ix where
  type? name hname := (h.type? name hname).symm
  names name hname := (h.names name hname).symm
  keeps name type hname htype := h.keeps name type hname ((h.type? name hname).trans htype)

/-- **The order of the modules plays no part** in what is found under a name. -/
theorem agrees_of_perm (h : DeclaredOnce modules) (hperm : modules.Perm modules') :
    (ofModules modules).Agrees anyName (ofModules modules') := by
  have htypes := types_of_declaredOnce h
  have htypes' := types_of_declaredOnce (h.perm hperm)
  have hsame : ((ofModules modules).types).Perm (ofModules modules').types := by
    rw [htypes, htypes']
    exact hperm.flatMap_right _
  refine ⟨fun name _ => ?_, fun name _ => (hsame.map _).count_eq name, fun _ type _ _ => type.keepsTo_anyName⟩
  ext type
  rw [type?, type?, find?_key_eq_some_iff (htypes ▸ h.names),
    find?_key_eq_some_iff (htypes' ▸ (h.perm hperm).names), hsame.mem_iff]

section

variable {known : String → Prop} {ix ix' : Index} {type : TypeDef}

theorem Agrees.namedInterfaces (h : ix.Agrees known ix') (htype : type.KeepsTo known) :
    ix.namedInterfaces type = ix'.namedInterfaces type := by
  rw [Index.namedInterfaces, Index.namedInterfaces]
  exact List.filterMap_congr fun ref href => h.type? ref.name (htype.interfaces ref href)

theorem Agrees.baseType? (h : ix.Agrees known ix') (htype : type.KeepsTo known) :
    ix.baseType? type = ix'.baseType? type := by
  rw [Index.baseType?, Index.baseType?]
  cases hbase : type.base with
  | none => rfl
  | some ref => exact h.type? ref.name (htype.base ref hbase)

/-- A definition that is reached by known names. -/
structure Reached (known : String → Prop) (type : TypeDef) : Prop where
  name : known type.fullName
  keeps : type.KeepsTo known

theorem Agrees.reached (h : ix.Agrees known ix') {name : String} (hname : known name)
    (htype : ix.type? name = some type) : Reached known type :=
  ⟨fullName_of_type? htype ▸ hname, h.keeps name type hname htype⟩

/-- The supertypes of a definition that is reached are reached. -/
theorem Agrees.reached_supertypes (h : ix.Agrees known ix') (htype : type.KeepsTo known) :
    ∀ next ∈ ix.namedInterfaces type ++ (ix.baseType? type).toList, Reached known next := by
  intro next hnext
  rcases List.mem_append.mp hnext with hnext | hnext
  · obtain ⟨ref, href, hfound⟩ := List.mem_filterMap.mp hnext
    exact h.reached (htype.interfaces ref href) hfound
  · obtain ⟨ref, href, hfound⟩ := Option.bind_eq_some_iff.mp (Option.mem_toList.mp hnext)
    exact h.reached (htype.base ref href) hfound

/-- The search for interfaces removes names from a list and never looks at their order, nor at names that it
does not meet. -/
theorem Agrees.closeInterfaces (h : ix.Agrees known ix') {remaining remaining' : List String}
    {found pending : List TypeDef} (hpending : ∀ type ∈ pending, Reached known type)
    (hnames : ∀ name, known name → remaining.count name = remaining'.count name) :
    ix.closeInterfaces remaining found pending = ix'.closeInterfaces remaining' found pending := by
  induction remaining, found, pending using closeInterfaces.induct ix generalizing remaining' with
  | case1 remaining found => rw [Index.closeInterfaces, Index.closeInterfaces]
  | case2 remaining found type pending hmem interfaces =>
    rename_i ih
    obtain ⟨htype, hrest⟩ := List.forall_mem_cons.mp hpending
    -- a known name is counted alike in both lists, so it is taken from both or from neither
    have hmem' : type.fullName ∈ remaining' := by
      rwa [← List.count_pos_iff, ← hnames _ htype.name, List.count_pos_iff]
    rw [Index.closeInterfaces, Index.closeInterfaces, dif_pos hmem, dif_pos hmem']
    dsimp only
    rw [← h.namedInterfaces htype.keeps, ← h.baseType? htype.keeps]
    refine ih (fun next hnext => ?_) fun name hname => ?_
    · rw [List.append_assoc] at hnext
      rcases List.mem_append.mp hnext with hnext | hnext
      · exact hrest next hnext
      · exact h.reached_supertypes htype.keeps next hnext
    · rw [List.count_erase, List.count_erase, hnames name hname]
  | case3 remaining found type pending hmem ih =>
    obtain ⟨htype, hrest⟩ := List.forall_mem_cons.mp hpending
    have hmem' : type.fullName ∉ remaining' := by
      rwa [← List.count_pos_iff, ← hnames _ htype.name, List.count_pos_iff]
    rw [Index.closeInterfaces, Index.closeInterfaces, dif_neg hmem, dif_neg hmem']
    exact ih hrest hnames

/-- **The interfaces of a type** are the same in indexes that agree on the names that it leads to. -/
theorem Agrees.interfaceClosure (h : ix.Agrees known ix') (htype : Reached known type) :
    ix.interfaceClosure type = ix'.interfaceClosure type := by
  refine h.closeInterfaces (List.forall_mem_singleton.mpr htype) fun name hname => ?_
  have hmem : type.fullName ∈ ix.types.map (·.fullName) ↔ type.fullName ∈ ix'.types.map (·.fullName) := by
    rw [← List.count_pos_iff, h.names _ htype.name, List.count_pos_iff]
  by_cases hthere : type.fullName ∈ ix.types.map (·.fullName)
  · rw [List.insert_of_mem hthere, List.insert_of_mem (hmem.mp hthere), h.names name hname]
  · rw [List.insert_of_not_mem hthere, List.insert_of_not_mem (mt hmem.mpr hthere), List.count_cons,
      List.count_cons, h.names name hname]

theorem Agrees.typeOf? (h : ix.Agrees known ix') {identity : Identity}
    (hidentity : ∀ name ∈ identity.canonicalName, known name) : ix.typeOf? identity = ix'.typeOf? identity := by
  rw [Index.typeOf?, Index.typeOf?]
  cases hname : identity.canonicalName with
  | none => rfl
  | some name => exact h.type? name (hidentity name hname)

theorem Agrees.findMethod (h : ix.Agrees known ix') {identity : Identity}
    (hidentity : ∀ name ∈ identity.canonicalName, known name) (name : String)
    (parameters : Option (List String)) (arity : Option Nat) :
    ix.findMethod identity name parameters arity = ix'.findMethod identity name parameters arity := by
  rw [Index.findMethod, Index.findMethod, h.typeOf? hidentity]

end

end Index

end JobClosure
