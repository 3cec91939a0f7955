import JobClosure.Proofs.Synthesis.Collected
import JobClosure.Synthesis.Replacing

/-!
# Groups take the place of groups

Done to a module step by step, synthesis comes to what `Module.synthesize` says (`Synthesis.apply_replaceGroup`),
and since everything is looked at before anything is changed, an error leaves the module as it was. What is
outside the group is kept by every change (`Synthesis.outside_apply`), so by every history of changes under one
name, and nothing else of the module matters for the next one: after any history the module is what the last
change that was accepted makes of it alone (`Synthesis.replaceAll_cases`).
-/

namespace JobClosure

/-! ## Changes step by step -/

theorem Module.addTypes_singleton (m : Module) (type : TypeDef) (types : List TypeDef) :
    (m.addTypes [type]).addTypes types = m.addTypes (type :: types) := by
  rw [addTypes, addTypes, addTypes, List.append_assoc, List.singleton_append]

namespace Edit

variable {α β : Type}

theorem apply_bind (edit : Edit α) (next : α → Edit β) (m : Module) :
    apply (edit >>= next) m =
      match apply edit m with
      | (.ok a, after) => apply (next a) after
      | (.error error, after) => (.error error, after) := by
  simp only [apply, ExceptT.run_bind, StateT.run_bind, Id.run_bind]
  rcases Id.run ((ExceptT.run edit).run m) with ⟨_ | _, after⟩ <;> rfl

theorem apply_bind_of_ok {edit : Edit α} {next : α → Edit β} {m after : Module} {a : α}
    (h : apply edit m = (.ok a, after)) : apply (edit >>= next) m = apply (next a) after := by
  rw [apply_bind, h]

theorem apply_bind_of_error {edit : Edit α} {next : α → Edit β} {m after : Module} {error : Error}
    (h : apply edit m = (.error error, after)) : apply (edit >>= next) m = (.error error, after) := by
  rw [apply_bind, h]

@[simp] theorem apply_pure (a : α) (m : Module) : apply (pure a) m = (.ok a, m) := rfl

@[simp] theorem apply_get (m : Module) : apply get m = (.ok m, m) := rfl

@[simp] theorem apply_modify (f : Module → Module) (m : Module) : apply (modify f) m = (.ok (), f m) := rfl

@[simp] theorem apply_refuse (fault : SynthesisFault) (m : Module) :
    apply (α := α) (refuse fault) m = (.error (.synthesis m.name fault), m) := rfl

@[simp] theorem apply_addType (type : TypeDef) (m : Module) :
    apply (addType type) m = (.ok (), m.addTypes [type]) := rfl

/-- Types that are put in one by one come after each other. -/
theorem apply_forM_addType (types : List TypeDef) (m : Module) :
    apply (forM types addType) m = (.ok (), m.addTypes types) := by
  induction types generalizing m with
  | nil => rw [List.forM_nil, apply_pure, Module.addTypes, List.append_nil]
  | cons type rest ih =>
    rw [List.forM_cons, apply_bind_of_ok (apply_addType type m), ih, Module.addTypes_singleton]

end Edit

namespace Synthesis

open Edit (apply apply_bind apply_bind_of_ok apply_bind_of_error apply_forM_addType)

variable {index : Option Index} {group : String} {m : Module}

/-- **Looking at the items** does nothing to the module. -/
theorem apply_foldlM_collect (index : Option Index) (unique : List TypeRef) (items : List Wanted) (m : Module) :
    apply (items.foldlM (collect index) unique) m =
      match (items.map Wanted.instantiation).mapM (closedRef index) with
      | .ok found => (.ok (found.foldl (addDistinct TypeRef.spell) unique), m)
      | .error fault => (.error (.synthesis m.name fault), m) := by
  induction items generalizing unique with
  | nil => rfl
  | cons item rest ih =>
    rw [List.foldlM_cons, List.map_cons, List.mapM_cons, apply_bind, collect]
    cases closedRef index item.instantiation with
    | error fault => rfl
    | ok ref =>
      -- the rest is looked at with one more reference kept, which is why the induction is over any that are
      show apply (rest.foldlM (collect index) (addDistinct TypeRef.spell unique ref)) m = _
      rw [ih]
      cases (rest.map Wanted.instantiation).mapM (closedRef index) with
      | error fault => rfl
      | ok found => rfl

theorem apply_putGroup (group : String) (refs : List TypeRef) (m : Module) :
    apply (putGroup group refs) m
      = (.ok (groupTypes m.name group refs).1, (m.outside group).addTypes (newTypes m.name group refs)) := by
  unfold putGroup
  rw [apply_bind_of_ok (Edit.apply_modify _ m), apply_bind_of_ok (Edit.apply_get _)]
  dsimp only
  rw [apply_bind_of_ok (Edit.apply_addType _ _), apply_bind_of_ok (apply_forM_addType _ _), Edit.apply_pure,
    Module.addTypes_singleton]
  rfl

/-- **The change of a module is what becomes of it**, and an error leaves the module alone. -/
theorem apply_replaceGroup (index : Option Index) (group : String) (items : List Wanted) (m : Module) :
    apply (replaceGroup index group items) m =
      match m.synthesize index group (items.map Wanted.instantiation) with
      | .ok (type, after) => (.ok type, after)
      | .error error => (.error error, m) := by
  unfold replaceGroup Module.synthesize
  by_cases hempty : group.isEmpty = true
  · rw [if_pos hempty, if_pos hempty]
    exact apply_bind_of_error (Edit.apply_refuse .noName m)
  · rw [if_neg hempty, if_neg hempty, closedRefs]
    -- all that can fail comes before the first change
    have hlooked := apply_foldlM_collect index [] items m
    dsimp only
    cases hfound : (items.map Wanted.instantiation).mapM (closedRef index) with
    | error fault =>
      rw [hfound] at hlooked
      exact apply_bind_of_error hlooked
    | ok found =>
      rw [hfound] at hlooked
      rw [apply_bind_of_ok hlooked, apply_putGroup]
      rfl

/-! ## One change -/

/-- A change is refused for an empty name, or for the first item that is refused. -/
def Refused (index : Option Index) (group : String) (items : List Wanted) (fault : SynthesisFault) : Prop :=
  (group = "" ∧ fault = .noName) ∨ FirstFault index (items.map Wanted.instantiation) fault

theorem apply_of_closedRefs {items : List Wanted} {refs : List TypeRef} (hgroup : group ≠ "")
    (hrefs : closedRefs index (items.map Wanted.instantiation) = .ok refs) (m : Module) :
    apply (replaceGroup index group items) m
      = (.ok (groupTypes m.name group refs).1, (m.outside group).addTypes (newTypes m.name group refs)) := by
  rw [apply_replaceGroup, Module.synthesize_eq_ok hgroup hrefs]

/-- **A change is refused, or the group is replaced.** -/
theorem replaceGroup_cases (index : Option Index) (group : String) (items : List Wanted) :
    (∃ fault, Refused index group items fault ∧ ∀ m,
      apply (replaceGroup index group items) m = (.error (.synthesis m.name fault), m)) ∨
    ∃ refs, group ≠ "" ∧ closedRefs index (items.map Wanted.instantiation) = .ok refs := by
  by_cases hempty : group = ""
  · refine .inl ⟨.noName, .inl ⟨hempty, rfl⟩, fun m => ?_⟩
    rw [apply_replaceGroup, Module.synthesize, if_pos (String.isEmpty_iff.mpr hempty)]
  · cases hrefs : closedRefs index (items.map Wanted.instantiation) with
    | error fault =>
      refine .inl ⟨fault, .inr (firstFault_of_closedRefs hrefs), fun m => ?_⟩
      rw [apply_replaceGroup, Module.synthesize, if_neg fun h => hempty (String.isEmpty_iff.mp h), hrefs]
    | ok refs => exact .inr ⟨refs, hempty, rfl⟩

/-- **A step keeps what is outside the group.** -/
theorem outside_apply (index : Option Index) (group : String) (items : List Wanted) (m : Module) :
    (apply (replaceGroup index group items) m).2.outside group = m.outside group := by
  have happly := apply_replaceGroup index group items m
  cases hmade : m.synthesize index group (items.map Wanted.instantiation) with
  | error error => rw [happly, hmade]
  | ok made =>
    obtain ⟨type, after⟩ := made
    rw [happly, hmade]
    exact Module.outside_synthesize hmade

/-- Modules that have the same outside of a group become the same. -/
theorem apply_congr {items : List Wanted} {m m' after : Module} {type : TypeDef}
    (h : m.outside group = m'.outside group)
    (hmade : apply (replaceGroup index group items) m = (.ok type, after)) :
    apply (replaceGroup index group items) m' = (.ok type, after) := by
  have hname : m.name = m'.name := by
    show (m.outside group).name = (m'.outside group).name
    rw [h]
  rcases replaceGroup_cases index group items with ⟨fault, -, hrefused⟩ | ⟨refs, hgroup, hrefs⟩
  · rw [hrefused m] at hmade
    exact nomatch (Prod.mk.inj hmade).1
  · rw [← hmade, apply_of_closedRefs hgroup hrefs, apply_of_closedRefs hgroup hrefs, h, hname]

/-! ## Histories -/

/-- What is asked of a module under one name, time after time. An error is caught. -/
def replaceAll (group : String) (calls : List (Option Index × List Wanted)) (m : Module) : Module :=
  calls.foldl (fun m call => (apply (replaceGroup call.1 group call.2) m).2) m

theorem replaceAll_concat (group : String) (calls : List (Option Index × List Wanted))
    (call : Option Index × List Wanted) (m : Module) :
    replaceAll group (calls ++ [call]) m
      = (apply (replaceGroup call.1 group call.2) (replaceAll group calls m)).2 := by
  rw [replaceAll, List.foldl_append]
  rfl

/-- **A history keeps what is outside the group.** -/
theorem outside_replaceAll (group : String) (calls : List (Option Index × List Wanted)) (m : Module) :
    (replaceAll group calls m).outside group = m.outside group := by
  induction calls using List.reverseRecOn with
  | nil => rfl
  | append_singleton calls call ih => rw [replaceAll_concat, outside_apply, ih]

/-- What a change comes to does not depend on the history before it. -/
theorem apply_replaceAll_iff {items : List Wanted} {calls : List (Option Index × List Wanted)} {after : Module}
    {type : TypeDef} : apply (replaceGroup index group items) (replaceAll group calls m) = (.ok type, after) ↔
      apply (replaceGroup index group items) m = (.ok type, after) :=
  ⟨apply_congr (outside_replaceAll group calls m), apply_congr (outside_replaceAll group calls m).symm⟩

/-- **After a history the module is what the last accepted change makes of it alone.** -/
theorem replaceAll_cases (group : String) (calls : List (Option Index × List Wanted)) (m : Module) :
    (replaceAll group calls m = m ∧ ∀ call ∈ calls, ∃ fault, Refused call.1 group call.2 fault) ∨
    ∃ before call later type, calls = before ++ call :: later ∧
      apply (replaceGroup call.1 group call.2) m = (.ok type, replaceAll group calls m) ∧
      ∀ call ∈ later, ∃ fault, Refused call.1 group call.2 fault := by
  induction calls using List.reverseRecOn with
  | nil => exact .inl ⟨rfl, nofun⟩
  | append_singleton calls call ih =>
    rw [replaceAll_concat]
    rcases replaceGroup_cases call.1 group call.2 with ⟨fault, hfault, hrefused⟩ | ⟨refs, hgroup, hrefs⟩
    · -- the change does nothing, so it is as after the others
      rw [hrefused]
      have hlast : ∀ other ∈ [call], ∃ fault, Refused other.1 group other.2 fault :=
        List.forall_mem_singleton.mpr ⟨fault, hfault⟩
      rcases ih with ⟨hsame, hall⟩ | ⟨before, made, later, type, rfl, hmade, hlater⟩
      · exact .inl ⟨hsame, List.forall_mem_append.mpr ⟨hall, hlast⟩⟩
      · refine .inr ⟨before, made, later ++ [call], type, ?_, hmade, List.forall_mem_append.mpr ⟨hlater, hlast⟩⟩
        rw [List.append_assoc, List.cons_append]
    · have happly := apply_of_closedRefs hgroup hrefs (replaceAll group calls m)
      have hmade := apply_replaceAll_iff.mp happly
      rw [happly]
      exact .inr ⟨calls, call, [], _, rfl, hmade, fun _ hmem => absurd hmem List.not_mem_nil⟩

/-! ## The set of references -/

/-- Closed references that are made of names of the grammar, in whichever form they are given. -/
def AllClosed (items : List Wanted) : Prop :=
  ∀ item ∈ items, ∃ ref, item.instantiation = .ref ref ∧ ref.isOpen = false ∧ ref.toArg.Grammatical

/-- The same references are asked for, in any order and however often. -/
def SameRefs (items items' : List Wanted) : Prop :=
  ∀ ref, Instantiation.ref ref ∈ items.map Wanted.instantiation ↔ .ref ref ∈ items'.map Wanted.instantiation

theorem SameRefs.symm {items items' : List Wanted} (h : SameRefs items items') : SameRefs items' items :=
  fun ref => (h ref).symm

theorem AllClosed.named {items : List Wanted} (h : AllClosed items) : Named (items.map Wanted.instantiation) := by
  intro ref href
  obtain ⟨item, hitem, heq⟩ := List.mem_map.mp href
  obtain ⟨found, hfound, -, hnames⟩ := h item hitem
  obtain rfl := Instantiation.ref.inj (hfound.symm.trans heq)
  exact hnames

/-- **What is taken depends on the set of references only.** -/
theorem closedRefs_congr {items items' : List Wanted} {refs : List TypeRef} (hclosed : AllClosed items)
    (hclosed' : AllClosed items') (hsame : SameRefs items items')
    (h : closedRefs index (items.map Wanted.instantiation) = .ok refs) :
    closedRefs index (items'.map Wanted.instantiation) = .ok refs := by
  obtain ⟨hall, htaken⟩ := (closedRefs_eq_ok_iff hclosed.named).mp h
  refine (closedRefs_eq_ok_iff hclosed'.named).mpr ⟨fun given hgiven => ?_, htaken.ascending, fun ref => ?_⟩
  · obtain ⟨item, hitem, rfl⟩ := List.mem_map.mp hgiven
    obtain ⟨ref, href, -, -⟩ := hclosed' item hitem
    rw [href] at hgiven ⊢
    exact hall _ ((hsame ref).mpr hgiven)
  · exact (htaken.mem_iff ref).trans (hsame ref)

/--
**Synthesis replaces the group and only the group.**

A change is refused and leaves the module as it was, or it leaves the types outside the group, in their order,
followed by the group and its aliases. For closed references that are made of names of the grammar, what is
added depends on the name of the module and on the set of references: it does not matter how they are given, in
which order or how often, nor what else is in the module. So no change depends on the ones before it under the
same name, the same change made twice is as if it was made once, and after any history the module is what the
last change that was accepted makes of it alone.
-/
theorem replaces_only_the_group (index : Option Index) (group : String) :
    (∀ m items, (∃ fault, Refused index group items fault ∧
        apply (replaceGroup index group items) m = (.error (.synthesis m.name fault), m)) ∨
      ∃ refs type, closedRefs index (items.map Wanted.instantiation) = .ok refs ∧
        apply (replaceGroup index group items) m
          = (.ok type, { m with
              types := (m.types.filter fun type => !inGroup group type) ++ newTypes m.name group refs })) ∧
    (∀ m m' items items', m.name = m'.name → AllClosed items → AllClosed items' → SameRefs items items' →
      ((∃ error, apply (replaceGroup index group items) m = (.error error, m)) ∧
        ∃ error, apply (replaceGroup index group items') m' = (.error error, m')) ∨
      ∃ type added,
        apply (replaceGroup index group items) m
          = (.ok type, { m with types := (m.types.filter fun type => !inGroup group type) ++ added }) ∧
        apply (replaceGroup index group items') m'
          = (.ok type, { m' with types := (m'.types.filter fun type => !inGroup group type) ++ added })) ∧
    (∀ m calls items type after, apply (replaceGroup index group items) (replaceAll group calls m) = (.ok type, after) ↔
      apply (replaceGroup index group items) m = (.ok type, after)) ∧
    (∀ m items, apply (replaceGroup index group items) (apply (replaceGroup index group items) m).2
      = apply (replaceGroup index group items) m) ∧
    ∀ m calls, (replaceAll group calls m = m ∧ ∀ call ∈ calls, ∃ fault, Refused call.1 group call.2 fault) ∨
      ∃ before call later type, calls = before ++ call :: later ∧
        apply (replaceGroup call.1 group call.2) m = (.ok type, replaceAll group calls m) ∧
        ∀ call ∈ later, ∃ fault, Refused call.1 group call.2 fault := by
  refine ⟨fun m items => ?_, fun m m' items items' hname hclosed hclosed' hsame => ?_,
    fun m calls items type after => apply_replaceAll_iff, fun m items => ?_,
    fun m calls => replaceAll_cases group calls m⟩
  · -- refused, or the group is replaced
    rcases replaceGroup_cases index group items with ⟨fault, hfault, hrefused⟩ | ⟨refs, hgroup, hrefs⟩
    · exact .inl ⟨fault, hfault, hrefused m⟩
    · exact .inr ⟨refs, _, hrefs, apply_of_closedRefs hgroup hrefs m⟩
  · -- the same set of references: refused for both modules or for neither
    rcases replaceGroup_cases index group items with ⟨fault, -, hrefused⟩ | ⟨refs, hgroup, hrefs⟩
    · rcases replaceGroup_cases index group items' with ⟨fault', -, hrefused'⟩ | ⟨refs, hgroup, hrefs⟩
      · exact .inl ⟨⟨_, hrefused m⟩, _, hrefused' m'⟩
      · have happly := apply_of_closedRefs hgroup (closedRefs_congr hclosed' hclosed hsame.symm hrefs) m
        exact nomatch (Prod.mk.inj (happly.symm.trans (hrefused m))).1
    · have hrefs' := closedRefs_congr hclosed hclosed' hsame hrefs
      refine .inr ⟨_, _, apply_of_closedRefs hgroup hrefs m, ?_⟩
      rw [hname]
      exact apply_of_closedRefs hgroup hrefs' m'
  · -- what is outside the group is the same after the first change, and no more is looked at
    rcases replaceGroup_cases index group items with ⟨fault, -, hrefused⟩ | ⟨refs, hgroup, hrefs⟩
    · rw [hrefused m]
      exact hrefused m
    · have hmade := apply_of_closedRefs hgroup hrefs m
      rw [apply_congr (outside_apply index group items m).symm hmade, hmade]

/-! ## A group that is asked for in two forms

The module has an earlier group of the name, and a type whose name only begins like it. -/

namespace AskedTwice

def named (name : String) : TypeDef := { fullName := name, module := "Demo" }

def demo : Module := { name := "Demo", types := [named "Jobs", named "JobsOfToday", named "Jobs/Old"] }

def int : TypeArg := .named "Core.Int32" []

def once : List Wanted := [.resolved "Demo.Job" [int]]

def repeated : List Wanted := [.given (.ref ⟨"Demo.Job", [int]⟩), .resolved "Demo.Job" [int]]

theorem grammatical_job : (TypeRef.mk "Demo.Job" [int]).toArg.Grammatical :=
  ⟨by decide, ⟨by decide, trivial⟩, trivial⟩

theorem allClosed_once : AllClosed once := by
  intro item hitem
  obtain rfl := List.mem_singleton.mp hitem
  exact ⟨_, rfl, rfl, grammatical_job⟩

theorem allClosed_repeated : AllClosed repeated := by
  intro item hitem
  rcases List.mem_cons.mp hitem with rfl | hitem
  · exact ⟨_, rfl, rfl, grammatical_job⟩
  · obtain rfl := List.mem_singleton.mp hitem
    exact ⟨_, rfl, rfl, grammatical_job⟩

theorem sameRefs : SameRefs once repeated := by
  intro ref
  simp [once, repeated, Wanted.instantiation]

theorem closedRefs_once :
    closedRefs none (once.map Wanted.instantiation) = .ok [⟨"Demo.Job", [int]⟩] :=
  closedRefs_singleton rfl

/-- **The form in which a group is asked for makes no difference**, and the type that is not of the group stays. -/
theorem same_group : AllClosed once ∧ AllClosed repeated ∧ SameRefs once repeated ∧
    ∃ type added,
      apply (replaceGroup none "Jobs" once) demo = (.ok type, { demo with types := named "JobsOfToday" :: added }) ∧
      apply (replaceGroup none "Jobs" repeated) demo
        = (.ok type, { demo with types := named "JobsOfToday" :: added }) := by
  refine ⟨allClosed_once, allClosed_repeated, sameRefs, ?_⟩
  have hkept : demo.types.filter (fun type => !inGroup "Jobs" type) = [named "JobsOfToday"] := by rfl
  have hmade := apply_of_closedRefs (by decide : "Jobs" ≠ "") closedRefs_once demo
  rcases (replaces_only_the_group none "Jobs").2.1 demo demo once repeated rfl allClosed_once allClosed_repeated
    sameRefs with ⟨⟨error, hrefused⟩, -⟩ | ⟨type, added, honce, hrepeated⟩
  · exact nomatch (Prod.mk.inj (hmade.symm.trans hrefused)).1
  · rw [hkept] at honce hrepeated
    exact ⟨type, added, honce, hrepeated⟩

end AskedTwice

end Synthesis

end JobClosure
