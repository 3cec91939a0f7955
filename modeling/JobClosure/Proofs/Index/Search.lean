import JobClosure.Proofs.Index.Interfaces
import Mathlib

/-!
# The search for interfaces, step by step

`Index.closeInterfaces` takes names away from those that are left. The search can also be told by the names that it
has visited, one pending definition after the other (`Search.step`). Nothing keeps it from putting a definition in line
again that it has visited, on a cyclic hierarchy for one. But every edge of the hierarchy is followed once only, and
puts one definition in line, so there are no more steps than edges, and one for the definition that is asked about
(`Search.iterate_step_eq`).

With the exactness of what is found this gives the answer to a first question (`Index.interfacesOf_exact`).
-/

namespace JobClosure

namespace Index

/-- A search for interfaces on its way. -/
structure Search where
  /-- The names of the definitions that were expanded. -/
  visited : List String := []
  found : List TypeDef := []
  /-- What is to be looked at, in order. -/
  pending : List TypeDef := []

/-- One step: the first pending definition is expanded, unless its name has been visited. -/
def Search.step (ix : Index) (s : Search) : Search :=
  match s.pending with
  | [] => s
  | type :: pending =>
    if type.fullName ∈ s.visited then { s with pending }
    else
      { visited := type.fullName :: s.visited
        found := (ix.namedInterfaces type).foldl (addDistinct (·.fullName)) s.found
        pending := pending ++ ix.namedInterfaces type ++ (ix.baseType? type).toList }

/-- The search before its first step. -/
def Search.start (type : TypeDef) : Search := { pending := [type] }

/-- The number of edges that lead from a definition. -/
def edges (ix : Index) (type : TypeDef) : Nat := (ix.namedInterfaces type ++ (ix.baseType? type).toList).length

/-- The number of edges of the hierarchy. -/
def edgeCount (ix : Index) : Nat := (ix.types.map ix.edges).sum

/-- The number of edges that lead from the definition of a name, if there is one. -/
def edgesOf (ix : Index) (name : String) : Nat := (ix.type? name).elim 0 ix.edges

variable {ix : Index} {type : TypeDef} {visited remaining : List String} {found pending : List TypeDef}

theorem Canonical.edgesOf_fullName (h : ix.Canonical type) : ix.edgesOf type.fullName = ix.edges type := by
  rw [edgesOf, h]
  rfl

/-- Where no name is defined twice, the edges of all names are those of the hierarchy. -/
theorem sum_edgesOf (h : (ix.types.map (·.fullName)).Nodup) :
    ((ix.types.map (·.fullName)).map ix.edgesOf).sum = ix.edgeCount := by
  rw [edgeCount, List.map_map]
  refine congrArg List.sum (List.map_congr_left fun type htype => ?_)
  have hcanonical : ix.Canonical type := (find?_key_eq_some_iff h).mpr ⟨htype, rfl⟩
  exact hcanonical.edgesOf_fullName

namespace Search

/-- Without anything pending nothing happens any more. -/
theorem iterate_step_done (n : Nat) :
    (step ix)^[n] ⟨visited, found, []⟩ = ⟨visited, found, []⟩ :=
  Function.iterate_fixed rfl n

/--
**The search ends.** The names that are left are those that have not been visited. Every step looks at a pending
definition, and if it puts others in line it does so along the edges of a name that is left, which is visited then.
-/
theorem exists_iterate_step_eq (hpending : ∀ type ∈ pending, ix.Canonical type) (hnodup : remaining.Nodup)
    (hleft : ∀ type, ix.Canonical type → (type.fullName ∈ remaining ↔ type.fullName ∉ visited)) :
    ∃ n visited', n ≤ pending.length + (remaining.map ix.edgesOf).sum ∧
      (step ix)^[n] ⟨visited, found, pending⟩ = ⟨visited', ix.closeInterfaces remaining found pending, []⟩ := by
  induction remaining, found, pending using closeInterfaces.induct ix generalizing visited with
  | case1 remaining found =>
    refine ⟨0, visited, Nat.zero_le _, ?_⟩
    rw [closeInterfaces]
    rfl
  | case2 remaining found type pending hmem interfaces =>
    -- the name is left: it is visited now, and its edges pay for what is put in line
    rename_i ih
    obtain ⟨htype, hrest⟩ := List.forall_mem_cons.mp hpending
    have hcanonical : ∀ next ∈ pending ++ ix.namedInterfaces type ++ (ix.baseType? type).toList, ix.Canonical next := by
      intro next hnext
      rw [List.append_assoc] at hnext
      rcases List.mem_append.mp hnext with hnext | hnext
      · exact hrest next hnext
      · exact (mem_supertypes_iff.mp hnext).canonical
    have hnames : ∀ other, ix.Canonical other →
        (other.fullName ∈ remaining.erase type.fullName ↔ other.fullName ∉ type.fullName :: visited) := by
      intro other hother
      rw [hnodup.mem_erase_iff, List.mem_cons, not_or, hleft other hother]
    obtain ⟨n, visited', hn, hend⟩ := ih hcanonical (hnodup.erase _) hnames
    refine ⟨n + 1, visited', ?_, ?_⟩
    · have hsum := List.sum_map_erase ix.edgesOf hmem
      change n ≤ (pending ++ ix.namedInterfaces type ++ (ix.baseType? type).toList).length + _ at hn
      rw [List.append_assoc, List.length_append] at hn
      rw [htype.edgesOf_fullName, edges] at hsum
      rw [List.length_cons]
      omega
    · rw [Function.iterate_succ_apply, closeInterfaces, dif_pos hmem, ← hend, step]
      exact congrArg _ (if_neg ((hleft type htype).mp hmem))
  | case3 remaining found type pending hmem ih =>
    -- the name was visited before: the definition is dropped
    obtain ⟨htype, hrest⟩ := List.forall_mem_cons.mp hpending
    obtain ⟨n, visited', hn, hend⟩ := ih hrest hnodup hleft
    refine ⟨n + 1, visited', ?_, ?_⟩
    · rw [List.length_cons]
      omega
    · rw [Function.iterate_succ_apply, closeInterfaces, dif_neg hmem, ← hend, step]
      exact congrArg _ (if_pos (not_not.mp (mt (hleft type htype).mpr hmem)))

/-- **The search has ended** after as many steps as the hierarchy has edges, and one more. -/
theorem iterate_step_eq (hnames : (ix.types.map (·.fullName)).Nodup) (htype : ix.Canonical type) :
    ∃ visited, (step ix)^[ix.edgeCount + 1] (start type) = ⟨visited, ix.interfaceClosure type, []⟩ := by
  have hpending : ∀ other ∈ [type], ix.Canonical other := List.forall_mem_singleton.mpr htype
  obtain ⟨n, visited, hn, hend⟩ := @exists_iterate_step_eq ix [] _ [] _ hpending hnames fun other hother =>
    iff_of_true hother.mem_names List.not_mem_nil
  rw [sum_edgesOf hnames, List.length_singleton, Nat.add_comm] at hn
  refine ⟨visited, ?_⟩
  rw [interfaceClosure, List.insert_of_mem htype.mem_names, ← Nat.sub_add_cancel hn, Function.iterate_add_apply]
  exact (congrArg _ hend).trans (iterate_step_done _)

end Search

/-! ## What is found -/

/-- Every name is found once. -/
theorem nodup_closeInterfaces (h : (found.map (·.fullName)).Nodup) :
    ((ix.closeInterfaces remaining found pending).map (·.fullName)).Nodup := by
  induction remaining, found, pending using closeInterfaces.induct ix with
  | case1 remaining found =>
    rw [closeInterfaces]
    exact h
  | case2 remaining found type pending hmem interfaces ih =>
    rw [closeInterfaces, dif_pos hmem]
    exact ih (nodup_map_foldl_addDistinct h)
  | case3 remaining found type pending hmem ih =>
    rw [closeInterfaces, dif_neg hmem]
    exact ih h

/--
**The interfaces of a type are found exactly.**

Let a definition be canonical in an index that has not been asked before, whatever cycles its hierarchy has and
whatever names in it have no definition. The search has ended after as many steps as the hierarchy has edges, and one
more, and its finds are the answer. No name is found twice, and found are the canonical definitions of those names
that stand among the interfaces of some definition to which the edges lead.
-/
theorem interfacesOf_exact (modules : List Module) {type : TypeDef} (htype : (ofModules modules).Canonical type) :
    (∃ visited, (Search.step (ofModules modules))^[(ofModules modules).edgeCount + 1] (Search.start type)
      = ⟨visited, ((ofModules modules).interfacesOf [] type).1, []⟩) ∧
    (((ofModules modules).interfacesOf [] type).1.map (·.fullName)).Nodup ∧
    ∀ interface, interface ∈ ((ofModules modules).interfacesOf [] type).1 ↔
      ∃ heir, Relation.ReflTransGen (ofModules modules).Supertype type heir ∧
        ∃ ref ∈ heir.interfaces, (ofModules modules).type? ref.name = some interface := by
  exact ⟨Search.iterate_step_eq (nodup_fullName_types modules) htype, nodup_closeInterfaces List.nodup_nil,
    fun _ => mem_interfaceClosure_iff htype⟩

end Index

/-! A type and its base type are each other's base, and so are two interfaces; one interface and one base type are not
defined. -/

namespace Circles

def walker : TypeDef where
  fullName := "Walker"
  base := some ⟨"Runner", []⟩
  interfaces := [⟨"Missing", []⟩]

def runner : TypeDef where
  fullName := "Runner"
  base := some ⟨"Walker", []⟩
  interfaces := [⟨"Moves", []⟩]

def moves : TypeDef where
  fullName := "Moves"
  base := some ⟨"Missing", []⟩
  interfaces := [⟨"Acts", []⟩]
  isInterface := true

def acts : TypeDef where
  fullName := "Acts"
  interfaces := [⟨"Moves", []⟩]
  isInterface := true

/-- Another definition of an interface that has one. -/
def late : TypeDef where
  fullName := "Acts"
  interfaces := [⟨"Walker", []⟩]

def modules : List Module := [{ name := "Demo", types := [walker, runner, moves, acts, late] }]

theorem canonical_walker : (Index.ofModules modules).Canonical walker := rfl

/-- The interfaces of the base type are those of the type, also the one that only an interface names. -/
theorem implements_acts : (Index.ofModules modules).Implements walker acts := by
  have hbase : (Index.ofModules modules).Supertype walker runner := .base _ rfl rfl
  have hinterface : (Index.ofModules modules).Supertype runner moves := .interface _ (List.mem_singleton_self _) rfl
  exact ⟨moves, .tail (.single hbase) hinterface, _, List.mem_singleton_self _, rfl⟩

theorem edgeCount_modules : (Index.ofModules modules).edgeCount = 5 := by cbv

/-- The search ends on circles. -/
theorem interfacesOf_walker : (Index.ofModules modules).Canonical walker ∧
    (∃ visited, (Index.Search.step (Index.ofModules modules))^[6] (Index.Search.start walker)
      = ⟨visited, ((Index.ofModules modules).interfacesOf [] walker).1, []⟩) ∧
    (((Index.ofModules modules).interfacesOf [] walker).1.map (·.fullName)).Nodup ∧
    acts ∈ ((Index.ofModules modules).interfacesOf [] walker).1 := by
  obtain ⟨hends, hnodup, hexact⟩ := Index.interfacesOf_exact modules canonical_walker
  rw [edgeCount_modules] at hends
  exact ⟨canonical_walker, hends, hnodup, (hexact acts).mpr implements_acts⟩

end Circles

end JobClosure
