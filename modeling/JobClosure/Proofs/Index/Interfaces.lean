import JobClosure.Index.Interfaces
import JobClosure.Proofs.Index.Basic
import Mathlib.Logic.Relation

/-!
# The interfaces of a type

An edge of the hierarchy leads from a definition to a definition that it names, as its base type or among its
interfaces. A type implements an interface if the edges lead it to a definition that names this one among its
interfaces (`Index.Implements`). What a name stands for is the canonical definition of the name; a name without one
leads nowhere. It plays no part whether a definition says of itself that it is an interface.

The search for interfaces is exact (`mem_interfaceClosure_iff`), whatever cycles the hierarchy has. That nothing is
made up holds step by step. That nothing is missed is an invariant of the search (`Closing`): what has been expanded
is closed under the edges up to what is still pending, so when nothing is pending it is closed.
-/

namespace JobClosure

namespace Index

/-- A definition is the canonical one of its name. -/
def Canonical (ix : Index) (type : TypeDef) : Prop := ix.type? type.fullName = some type

/-- The edges of the hierarchy. -/
inductive Supertype (ix : Index) (type next : TypeDef) : Prop
  | base (ref : TypeRef) (named : type.base = some ref) (defined : ix.type? ref.name = some next)
  | interface (ref : TypeRef) (named : ref ∈ type.interfaces) (defined : ix.type? ref.name = some next)

/-- A type implements the interfaces that are named by some type it leads to, itself included. -/
def Implements (ix : Index) (type interface : TypeDef) : Prop :=
  ∃ heir, Relation.ReflTransGen ix.Supertype type heir ∧
    ∃ ref ∈ heir.interfaces, ix.type? ref.name = some interface

/-- A job type is no interface and implements one that carries the marker. -/
structure JobType (ix : Index) (marker : String) (type : TypeDef) : Prop where
  noInterface : type.isInterface = false
  marked : ∃ interface, ix.Implements type interface ∧ marker ∈ interface.attributes

/-- A reference to a job type in which a parameter occurs. -/
structure OpenJob (ix : Index) (marker : String) (ref : TypeRef) : Prop where
  parameter : ∃ p, p ∈ ref.toArg.occurrences
  template : ∃ type, ix.type? ref.name = some type ∧ ix.JobType marker type

variable {ix : Index} {type next interface : TypeDef} {name : String}

/-! ## Canonical definitions -/

theorem canonical_of_type? (h : ix.type? name = some type) : ix.Canonical type := by
  unfold Canonical
  rw [fullName_of_type? h, h]

theorem Canonical.eq_of_fullName (h : ix.Canonical type) (h' : ix.Canonical next)
    (hname : type.fullName = next.fullName) : type = next := by
  unfold Canonical at h h'
  rw [hname] at h
  exact Option.some.inj (h.symm.trans h')

theorem Canonical.mem_names (h : ix.Canonical type) : type.fullName ∈ ix.types.map (·.fullName) :=
  List.mem_map_of_mem (List.mem_of_find?_eq_some h)

theorem Supertype.canonical (h : ix.Supertype type next) : ix.Canonical next := by
  cases h with
  | base ref named defined => exact canonical_of_type? defined
  | interface ref named defined => exact canonical_of_type? defined

/-! ## The edges as lists -/

theorem mem_namedInterfaces :
    interface ∈ ix.namedInterfaces type ↔ ∃ ref ∈ type.interfaces, ix.type? ref.name = some interface :=
  List.mem_filterMap

theorem canonical_of_mem_namedInterfaces (h : interface ∈ ix.namedInterfaces type) : ix.Canonical interface := by
  obtain ⟨ref, -, hdefined⟩ := mem_namedInterfaces.mp h
  exact canonical_of_type? hdefined

/-- The search goes along the edges. -/
theorem mem_supertypes_iff : next ∈ ix.namedInterfaces type ++ (ix.baseType? type).toList ↔ ix.Supertype type next := by
  rw [List.mem_append, mem_namedInterfaces, Option.mem_toList]
  constructor
  · rintro (⟨ref, href, hdefined⟩ | hbase)
    · exact .interface ref href hdefined
    · obtain ⟨ref, href, hdefined⟩ := Option.bind_eq_some_iff.mp hbase
      exact .base ref href hdefined
  · rintro (⟨ref, href, hdefined⟩ | ⟨ref, href, hdefined⟩)
    · exact .inr (Option.bind_eq_some_iff.mpr ⟨ref, href, hdefined⟩)
    · exact .inl ⟨ref, href, hdefined⟩

/-! ## Nothing is made up -/

theorem implements_of_mem_namedInterfaces {start : TypeDef} (hlead : Relation.ReflTransGen ix.Supertype start type)
    (h : interface ∈ ix.namedInterfaces type) : ix.Implements start interface :=
  ⟨type, hlead, mem_namedInterfaces.mp h⟩

/-- A search that comes only to what `start` leads to finds only what `start` implements. -/
theorem implements_of_mem_closeInterfaces {start : TypeDef} {remaining : List String} {found pending : List TypeDef}
    (hfound : ∀ interface ∈ found, ix.Implements start interface)
    (hpending : ∀ type ∈ pending, Relation.ReflTransGen ix.Supertype start type) :
    ∀ interface ∈ ix.closeInterfaces remaining found pending, ix.Implements start interface := by
  induction remaining, found, pending using closeInterfaces.induct ix with
  | case1 remaining found =>
    rw [closeInterfaces]
    exact hfound
  | case2 remaining found type pending hmem interfaces ih =>
    obtain ⟨htype, hrest⟩ := List.forall_mem_cons.mp hpending
    rw [closeInterfaces, dif_pos hmem]
    refine ih (fun interface h => ?_) fun next h => ?_
    · rcases mem_foldl_addDistinct h with h | h
      · exact hfound interface h
      · exact implements_of_mem_namedInterfaces htype h
    · rw [List.append_assoc] at h
      rcases List.mem_append.mp h with h | h
      · exact hrest next h
      · exact htype.tail (mem_supertypes_iff.mp h)
  | case3 remaining found type pending hmem ih =>
    rw [closeInterfaces, dif_neg hmem]
    exact ih hfound (List.forall_mem_cons.mp hpending).2

/-! ## Nothing is missed -/

/-- How far a search has come when the `done` definitions have been expanded. -/
structure Closing (ix : Index) (done : TypeDef → Prop) (remaining : List String) (found pending : List TypeDef) :
    Prop where
  /-- Only canonical definitions are found or pending. -/
  canonical : ∀ type, type ∈ found ∨ type ∈ pending → ix.Canonical type
  /-- What was expanded has given its interfaces. -/
  given : ∀ type, done type → ∀ interface ∈ ix.namedInterfaces type, interface ∈ found
  /-- The edges of what was expanded lead to what was expanded or is pending. -/
  followed : ∀ type, done type → ∀ next, ix.Supertype type next → done next ∨ next ∈ pending
  /-- A name is taken away when its definition is expanded. -/
  taken : ∀ type, ix.Canonical type → type.fullName ∉ remaining → done type

variable {done : TypeDef → Prop} {remaining : List String} {found pending : List TypeDef}

theorem Closing.start (ix : Index) {type : TypeDef} (htype : ix.Canonical type) {remaining : List String}
    (hnames : ∀ name ∈ ix.types.map (·.fullName), name ∈ remaining) :
    ix.Closing (fun _ => False) remaining [] [type] where
  canonical other h := by
    rcases h with h | h
    · exact absurd h List.not_mem_nil
    · rwa [List.mem_singleton.mp h]
  given _ h := h.elim
  followed _ h := h.elim
  taken _ hother hnot := hnot (hnames _ hother.mem_names)

/-- A definition whose name was taken away has been expanded. -/
theorem Closing.skip (h : ix.Closing done remaining found (type :: pending)) (hname : type.fullName ∉ remaining) :
    done type ∧ ix.Closing done remaining found pending := by
  have htype : done type := h.taken type (h.canonical type (.inr List.mem_cons_self)) hname
  refine ⟨htype, fun other hother => ?_, h.given, fun other hother next hnext => ?_, h.taken⟩
  · exact h.canonical other (hother.imp_right (List.mem_cons_of_mem type))
  · rcases h.followed other hother next hnext with hdone | hpending
    · exact .inl hdone
    · rcases List.mem_cons.mp hpending with rfl | hpending
      · exact .inl htype
      · exact .inr hpending

/-- **Expanding a definition.** -/
theorem Closing.expand (h : ix.Closing done remaining found (type :: pending)) :
    ix.Closing (fun other => done other ∨ other = type) (remaining.erase type.fullName)
      ((ix.namedInterfaces type).foldl (addDistinct (·.fullName)) found)
      (pending ++ ix.namedInterfaces type ++ (ix.baseType? type).toList) := by
  have htype : ix.Canonical type := h.canonical type (.inr List.mem_cons_self)
  have hknown : ∀ other ∈ (ix.namedInterfaces type).foldl (addDistinct (·.fullName)) found, ix.Canonical other := by
    intro other hother
    rcases mem_foldl_addDistinct hother with hother | hother
    · exact h.canonical other (.inl hother)
    · exact canonical_of_mem_namedInterfaces hother
  refine ⟨?_, ?_, ?_, ?_⟩
  · rintro other (hother | hother)
    · exact hknown other hother
    · rw [List.append_assoc] at hother
      rcases List.mem_append.mp hother with hother | hother
      · exact h.canonical other (.inr (List.mem_cons_of_mem type hother))
      · exact (mem_supertypes_iff.mp hother).canonical
  · rintro other (hother | rfl) interface hinterface
    · exact subset_foldl_addDistinct (h.given other hother interface hinterface)
    · -- what is kept for the name of the interface is canonical too, hence the interface itself
      have hname : interface.fullName ∈
          ((ix.namedInterfaces other).foldl (addDistinct (·.fullName)) found).map (·.fullName) :=
        key_mem_foldl_addDistinct hinterface
      obtain ⟨kept, hkept, hname⟩ := List.mem_map.mp hname
      rwa [← (hknown kept hkept).eq_of_fullName (canonical_of_mem_namedInterfaces hinterface) hname]
  · -- what was pending is pending still, except for the definition, which is done
    rintro other (hother | rfl) next hnext
    · rw [List.append_assoc, List.mem_append]
      rcases h.followed other hother next hnext with hdone | hpending
      · exact .inl (.inl hdone)
      · rcases List.mem_cons.mp hpending with rfl | hpending
        · exact .inl (.inr rfl)
        · exact .inr (.inl hpending)
    · rw [List.append_assoc, List.mem_append]
      exact .inr (.inr (mem_supertypes_iff.mpr hnext))
  · intro other hother hnot
    by_cases hname : other.fullName = type.fullName
    · exact .inr (hother.eq_of_fullName htype hname)
    · exact .inl (h.taken other hother fun hmem => hnot ((List.mem_erase_of_ne hname).mpr hmem))

/-- When nothing is pending, all that the expanded definitions implement is found. -/
theorem Closing.mem_of_implements (h : ix.Closing done remaining found []) (htype : done type)
    (himplements : ix.Implements type interface) : interface ∈ found := by
  obtain ⟨heir, hlead, hnamed⟩ := himplements
  have hdone : done heir := by
    clear hnamed
    induction hlead with
    | refl => exact htype
    | tail _ hnext ih => exact (h.followed _ ih _ hnext).resolve_right List.not_mem_nil
  exact h.given heir hdone interface (mem_namedInterfaces.mpr hnamed)

/-- A search finds what the definitions implement that have been expanded or are pending. -/
theorem Closing.mem_closeInterfaces (h : ix.Closing done remaining found pending)
    (htype : done type ∨ type ∈ pending) (himplements : ix.Implements type interface) :
    interface ∈ ix.closeInterfaces remaining found pending := by
  induction remaining, found, pending using closeInterfaces.induct ix generalizing done with
  | case1 remaining found =>
    rw [closeInterfaces]
    exact h.mem_of_implements (htype.resolve_right List.not_mem_nil) himplements
  | case2 remaining found first pending hmem interfaces =>
    rename_i ih
    rw [closeInterfaces, dif_pos hmem]
    -- the first definition is expanded now, and what it leads to is pending
    refine ih h.expand ?_
    rcases htype with htype | htype
    · exact .inl (.inl htype)
    · rcases List.mem_cons.mp htype with rfl | htype
      · exact .inl (.inr rfl)
      · exact .inr (List.mem_append_left _ (List.mem_append_left _ htype))
  | case3 remaining found first pending hmem ih =>
    obtain ⟨hfirst, hclosing⟩ := h.skip hmem
    rw [closeInterfaces, dif_neg hmem]
    refine ih hclosing ?_
    rcases htype with htype | htype
    · exact .inl htype
    · rcases List.mem_cons.mp htype with rfl | htype
      · exact .inl hfirst
      · exact .inr htype

/-! ## The search is exact -/

/-- **The interfaces that are found are those that the type implements**, on cyclic hierarchies too. -/
theorem mem_interfaceClosure_iff (htype : ix.Canonical type) :
    interface ∈ ix.interfaceClosure type ↔ ix.Implements type interface := by
  constructor
  · refine implements_of_mem_closeInterfaces (fun _ h => absurd h List.not_mem_nil) (fun other h => ?_) interface
    rw [List.mem_singleton.mp h]
  · refine Closing.mem_closeInterfaces (Closing.start ix htype fun name hname => ?_) (.inr List.mem_cons_self)
    exact List.mem_insert_of_mem hname

end Index

end JobClosure
