import JobClosure.Proofs.CallSite.Origin
import JobClosure.Proofs.CallSite.Types
import JobClosure.Proofs.CallSite.Workshop
import JobClosure.Proofs.Instantiation.Union
import JobClosure.Proofs.Metadata.Loaded
import Mathlib

/-!
# Definitions with a name that is taken

When a type is defined twice, the first definition is the one that an index finds. Everything that is looked
up by name is therefore the same as if the later ones, which are **shadowed**, were not there. But a module
keeps its shadowed definitions: their bodies are scanned, and their methods are in the table of all methods.
So a shadowed definition can add calls, call sites and diagnostics, and methods that no lookup finds.

It makes no difference exactly if it adds nothing to what stands before it (`shadowed_iff`): its bodies hold no
call sites and are no cause of diagnostics, and the jobs they call for are called for in the same methods of an
earlier definition; and it declares no method that an earlier definition does not declare.
-/

namespace JobClosure

/-! ## Modules without shadowed definitions -/

/-- The types whose names are not taken, be it from the start or by an earlier type of the list. -/
def firstDefinitions (taken : List String) : List TypeDef → List TypeDef
  | [] => []
  | type :: rest =>
    if type.fullName ∈ taken then firstDefinitions taken rest
    else type :: firstDefinitions (type.fullName :: taken) rest

/-- The modules without the definitions whose names are taken, be it from the start or by an earlier definition
in the list. -/
def withoutShadowed (taken : List String) : List Module → List Module
  | [] => []
  | m :: rest =>
    { m with types := firstDefinitions taken m.types } ::
      withoutShadowed (m.types.map (·.fullName) ++ taken) rest

/-- A definition in a list of modules with a name that one of the definitions `before` it has. -/
def Shadowed (modules : List Module) (before : List TypeDef) (type : TypeDef) : Prop :=
  Repeats (·.fullName) (modules.flatMap (·.types)) before type

theorem firstDefinitions_congr {taken taken' : List String} (h : ∀ name, name ∈ taken ↔ name ∈ taken')
    (types : List TypeDef) : firstDefinitions taken types = firstDefinitions taken' types := by
  induction types generalizing taken taken' with
  | nil => rfl
  | cons type rest ih =>
    have hnext : ∀ name, name ∈ type.fullName :: taken ↔ name ∈ type.fullName :: taken' := by simp [h]
    rw [firstDefinitions, firstDefinitions, ih h, ih hnext]
    simp only [h]

theorem firstDefinitions_append (taken : List String) (types more : List TypeDef) :
    firstDefinitions taken (types ++ more)
      = firstDefinitions taken types ++ firstDefinitions (types.map (·.fullName) ++ taken) more := by
  induction types generalizing taken with
  | nil => rfl
  | cons type rest ih =>
    rw [List.cons_append, firstDefinitions, firstDefinitions]
    split
    · rename_i htaken
      rw [ih]
      refine congrArg _ (firstDefinitions_congr (fun name => ?_) more)
      have hname : name = type.fullName → name ∈ taken := fun h => h ▸ htaken
      simpa using fun h => .inr (hname h)
    · rw [ih, List.cons_append]
      refine congrArg _ (congrArg _ (firstDefinitions_congr (fun name => ?_) more))
      simp [or_left_comm]

/-- What is added to a list of types of which all names are taken. -/
theorem foldl_addDistinct_fullName (acc types : List TypeDef) :
    types.foldl (addDistinct (·.fullName)) acc = acc ++ firstDefinitions (acc.map (·.fullName)) types := by
  induction types generalizing acc with
  | nil => exact (List.append_nil _).symm
  | cons type rest ih =>
    rw [List.foldl_cons, firstDefinitions]
    split
    · rename_i htaken
      rw [addDistinct_of_mem htaken, ih]
    · rename_i hnew
      rw [addDistinct_of_not_mem hnew, ih, List.append_assoc, List.singleton_append]
      refine congrArg _ (congrArg _ (firstDefinitions_congr (fun name => ?_) rest))
      simp [or_comm]

theorem flatMap_types_withoutShadowed (taken : List String) (modules : List Module) :
    (withoutShadowed taken modules).flatMap (·.types) = firstDefinitions taken (modules.flatMap (·.types)) := by
  induction modules generalizing taken with
  | nil => rfl
  | cons m rest ih => rw [withoutShadowed, List.flatMap_cons, ih, List.flatMap_cons, firstDefinitions_append]

/-- What is left is the first definition of every name. -/
theorem types_withoutShadowed (modules : List Module) :
    (withoutShadowed [] modules).flatMap (·.types) = distinctBy (·.fullName) (modules.flatMap (·.types)) := by
  rw [flatMap_types_withoutShadowed, distinctBy, foldl_addDistinct_fullName]
  rfl

theorem identities_withoutShadowed (taken : List String) (modules : List Module) :
    (withoutShadowed taken modules).map Module.identity = modules.map Module.identity := by
  induction modules generalizing taken with
  | nil => rfl
  | cons m rest ih =>
    rw [withoutShadowed, List.map_cons, ih, List.map_cons]
    rfl

namespace Index

variable {modules : List Module}

/-- **An index never finds a shadowed definition.** -/
theorem types_ofModules_withoutShadowed (h : (modules.map Module.identity).Nodup) :
    (ofModules (withoutShadowed [] modules)).types = (ofModules modules).types := by
  have h' : ((withoutShadowed [] modules).map Module.identity).Nodup := by
    rwa [identities_withoutShadowed]
  rw [types_ofModules h', types_ofModules h, types_withoutShadowed,
    distinctBy_eq_self (nodup_map_distinctBy _ _)]

theorem methods_ofModules_withoutShadowed (h : (modules.map Module.identity).Nodup) :
    (ofModules (withoutShadowed [] modules)).methods = (ofModules modules).methods := by
  rw [methods_ofModules, methods_ofModules, types_ofModules_withoutShadowed h]

theorem agrees_withoutShadowed (h : (modules.map Module.identity).Nodup) :
    (ofModules modules).Agrees anyName (ofModules (withoutShadowed [] modules)) := by
  have htypes := types_ofModules_withoutShadowed h
  exact ⟨fun name _ => by rw [type?, type?, htypes], fun name _ => by rw [htypes],
    fun _ type _ _ => type.keepsTo_anyName⟩

end Index

/-! ## What a scan finds -/

namespace Scanner

variable {s : Scanner}

/-- What a type contributes, if scanning it succeeds. -/
def foundIn (s : Scanner) (type : TypeDef) : ScanResult := (s.findsIn type).toOption.getD {}

theorem foundIn_of_ok {type : TypeDef} {found : ScanResult} (h : s.findsIn type = .ok found) :
    s.foundIn type = found := by
  rw [foundIn, h]
  rfl

theorem mapM_findsIn_eq_ok {types : List TypeDef} {finds : List ScanResult}
    (h : types.mapM s.findsIn = .ok finds) :
    (∀ type ∈ types, s.findsIn type = .ok (s.foundIn type)) ∧ finds = types.map s.foundIn := by
  induction types generalizing finds with
  | nil =>
    obtain rfl := Except.ok.inj h
    exact ⟨fun _ hmem => absurd hmem List.not_mem_nil, rfl⟩
  | cons type rest ih =>
    rw [List.mapM_cons] at h
    obtain ⟨first, hfirst, h⟩ := bind_eq_ok h
    obtain ⟨more, hmore, h⟩ := bind_eq_ok h
    obtain rfl := Except.ok.inj h
    obtain ⟨hrest, rfl⟩ := ih hmore
    have hfound := foundIn_of_ok hfirst
    refine ⟨List.forall_mem_cons.mpr ⟨by rw [hfirst, hfound], hrest⟩, ?_⟩
    rw [List.map_cons, hfound]

theorem mapM_findsIn_of_ok {types : List TypeDef} (h : ∀ type ∈ types, s.findsIn type = .ok (s.foundIn type)) :
    types.mapM s.findsIn = .ok (types.map s.foundIn) := by
  have hmap := mapM_map_eq_ok (g := id) h
  rwa [List.map_id] at hmap

/-- If types cannot be scanned, neither can the first definitions among them, or it is for a repeated one. -/
theorem mapM_findsIn_eq_error {types : List TypeDef} {error : Error} (h : types.mapM s.findsIn = .error error) :
    (distinctBy (·.fullName) types).mapM s.findsIn = .error error ∨
      ∃ before type, Repeats (·.fullName) types before type ∧ s.findsIn type = .error error := by
  induction types using List.reverseRecOn with
  | nil => exact nomatch h
  | append_singleton types last ih =>
    by_cases hlast : last.fullName ∈ types.map (·.fullName)
    · rw [distinctBy_concat_of_mem hlast]
      rcases mapM_concat_eq_error_iff.mp h with htypes | ⟨-, herror⟩
      · refine (ih htypes).imp_right ?_
        rintro ⟨before, type, hrepeats, htype⟩
        exact ⟨before, type, repeats_concat_iff.mpr (.inl hrepeats), htype⟩
      · exact .inr ⟨types, last, repeats_concat_iff.mpr (.inr ⟨rfl, rfl, hlast⟩), herror⟩
    · rw [distinctBy_concat_of_not_mem hlast, mapM_concat_eq_error_iff]
      rcases mapM_concat_eq_error_iff.mp h with htypes | ⟨⟨finds, htypes⟩, herror⟩
      · rcases ih htypes with hkept | ⟨before, type, hrepeats, htype⟩
        · exact .inl (.inl hkept)
        · exact .inr ⟨before, type, repeats_concat_iff.mpr (.inl hrepeats), htype⟩
      · obtain ⟨hfound, -⟩ := mapM_findsIn_eq_ok htypes
        exact .inl (.inr ⟨⟨_, mapM_findsIn_of_ok fun type htype => hfound type (mem_of_mem_distinctBy htype)⟩, herror⟩)

/-- Scanned alone, a definition adds nothing to what is found in those before it. -/
def AddsNothing (s : Scanner) (before : List TypeDef) (type : TypeDef) : Prop :=
  ∃ found, s.findsIn type = .ok found ∧ found.callSites = [] ∧ found.diagnostics = [] ∧
    ∀ call ∈ found.calls, ∃ earlier ∈ before, ∃ found', s.findsIn earlier = .ok found' ∧
      ∃ call' ∈ found'.calls, call'.key = call.key

/-- The methods in which a type calls for jobs are its own. -/
theorem declaringType_of_mem_calls {type : TypeDef} (hown : type.HoldsOwnMethods) {found : ScanResult}
    (h : s.findsIn type = .ok found) : ∀ call ∈ found.calls, call.entry.declaringType = type.fullName := by
  obtain ⟨⟨found, memo⟩, hscan, rfl⟩ := map_eq_ok h
  have hcomes : found.ComesFrom s fun type' method => type' = type ∧ method ∈ type.methods :=
    comesFrom_scanMethods (fun method hmethod => ⟨rfl, hmethod⟩) hscan
  intro call hcall
  obtain ⟨-, method, -, ⟨-, hmethod⟩, -, -, -, rfl⟩ := hcomes.calls call hcall
  exact hown method hmethod

/-- What some types contribute, put together. -/
def foundInAll (s : Scanner) (types : List TypeDef) : ScanResult := (together (types.map s.foundIn)).dedupeCalls

theorem calls_foundInAll (types : List TypeDef) : (s.foundInAll types).calls
    = distinctBy CallReference.key (types.flatMap fun type => (s.foundIn type).calls) := by
  show distinctBy CallReference.key _ = _
  rw [calls_together, List.flatMap_map]

theorem callSites_foundInAll (types : List TypeDef) :
    (s.foundInAll types).callSites = types.flatMap fun type => (s.foundIn type).callSites := by
  show (together (types.map s.foundIn)).callSites = _
  rw [callSites_together, List.flatMap_map]

theorem diagnostics_foundInAll (types : List TypeDef) :
    (s.foundInAll types).diagnostics = types.flatMap fun type => (s.foundIn type).diagnostics := by
  show (together (types.map s.foundIn)).diagnostics = _
  rw [diagnostics_together, List.flatMap_map]

/-- **When the first definitions say it all.** All types contribute the same as the first definitions among them
if and only if every definition that repeats a name adds nothing to those before it. -/
theorem foundInAll_distinctBy_iff {types : List TypeDef} (hown : ∀ type ∈ types, type.HoldsOwnMethods)
    (hfound : ∀ type ∈ types, s.findsIn type = .ok (s.foundIn type)) :
    s.foundInAll types = s.foundInAll (distinctBy (·.fullName) types) ↔
      ∀ before type, Repeats (·.fullName) types before type → s.AddsNothing before type := by
  rw [ScanResult.eq_iff, calls_foundInAll, calls_foundInAll, callSites_foundInAll, callSites_foundInAll,
    diagnostics_foundInAll, diagnostics_foundInAll, flatMap_distinctBy_eq_iff, flatMap_distinctBy_eq_iff]
  constructor
  · rintro ⟨hcalls, hsites, hdiagnostics⟩ before type hrepeats
    have hmem : ∀ earlier ∈ before ++ [type], earlier ∈ types := by
      obtain ⟨⟨after, rfl⟩, -⟩ := hrepeats
      exact fun earlier hearlier => by simp at hearlier ⊢; tauto
    refine ⟨s.foundIn type, hfound type (hmem type (by simp)), hsites before type hrepeats,
      hdiagnostics before type hrepeats, fun call hcall => ?_⟩
    have howner : ∀ type ∈ types, ∀ call ∈ (s.foundIn type).calls, call.entry.declaringType = type.fullName :=
      fun type htype => declaringType_of_mem_calls (hown type htype) (hfound type htype)
    -- calls are keyed, and their keys tell the type that makes them
    have hkey := repeats_of_distinctBy_flatMap howner hcalls before type hrepeats call hcall
    obtain ⟨call', hcall', hsame⟩ := List.mem_map.mp hkey
    obtain ⟨earlier, hearlier, hcall'⟩ := List.mem_flatMap.mp hcall'
    exact ⟨earlier, hearlier, s.foundIn earlier, hfound earlier (hmem earlier (List.mem_append_left _ hearlier)),
      call', hcall', hsame⟩
  · intro h
    refine ⟨distinctBy_flatMap_of_repeats fun before type hrepeats call hcall => ?_, ?_, ?_⟩
    · obtain ⟨found, hok, -, -, hcalls⟩ := h before type hrepeats
      rw [foundIn_of_ok hok] at hcall
      obtain ⟨earlier, hearlier, found', hok', call', hcall', hkey⟩ := hcalls call hcall
      rw [← hkey]
      exact List.mem_map_of_mem (List.mem_flatMap.mpr ⟨earlier, hearlier, foundIn_of_ok hok' ▸ hcall'⟩)
    · intro before type hrepeats
      obtain ⟨found, hok, hsites, -, -⟩ := h before type hrepeats
      rw [foundIn_of_ok hok, hsites]
    · intro before type hrepeats
      obtain ⟨found, hok, -, hdiagnostics, -⟩ := h before type hrepeats
      rw [foundIn_of_ok hok, hdiagnostics]

end Scanner

section

variable {marker : String} {modules : List Module}

/-- The scanner of a list of modules. -/
def scannerOf (marker : String) (modules : List Module) : Scanner := ⟨Index.ofModules modules, marker⟩

theorem survey_withoutShadowed (h : (modules.map Module.identity).Nodup) :
    survey marker (withoutShadowed [] modules)
      = (fun finds => (Scanner.together finds).dedupeCalls) <$>
          (distinctBy (·.fullName) (modules.flatMap (·.types))).mapM (scannerOf marker modules).findsIn := by
  have hidentities : ((withoutShadowed [] modules).map Module.identity).Nodup := by
    rwa [identities_withoutShadowed]
  have hagrees : Scanner.Agrees anyName ⟨Index.ofModules (withoutShadowed [] modules), marker⟩
      (scannerOf marker modules) :=
    Scanner.Agrees.symm ⟨Index.agrees_withoutShadowed h, rfl⟩
  have hsame : Scanner.findsIn ⟨Index.ofModules (withoutShadowed [] modules), marker⟩
      = (scannerOf marker modules).findsIn :=
    funext fun type => hagrees.findsIn (Scanner.namesInBodies_anyName type)
  rw [survey_eq hidentities, types_withoutShadowed, hsame]

/-- A scan that succeeds does so without the shadowed definitions. -/
theorem survey_ok_iff (h : (modules.map Module.identity).Nodup)
    (hown : ∀ m ∈ modules, ∀ type ∈ m.types, type.HoldsOwnMethods) {found : ScanResult}
    (hfound : survey marker modules = .ok found) :
    ∃ found', survey marker (withoutShadowed [] modules) = .ok found' ∧
      (found = found' ↔ ∀ before type, Shadowed modules before type →
        (scannerOf marker modules).AddsNothing before type) := by
  rw [survey_eq h] at hfound
  obtain ⟨finds, hfinds, rfl⟩ := map_eq_ok hfound
  obtain ⟨hok, rfl⟩ := Scanner.mapM_findsIn_eq_ok hfinds
  have hfirst : ∀ type ∈ distinctBy (·.fullName) (modules.flatMap (·.types)), type ∈ modules.flatMap (·.types) :=
    fun type htype => mem_of_mem_distinctBy htype
  have hkept := Scanner.mapM_findsIn_of_ok fun type htype => hok type (hfirst type htype)
  refine ⟨_, by rw [survey_withoutShadowed h]; exact congrArg _ hkept, ?_⟩
  refine Scanner.foundInAll_distinctBy_iff (fun type htype => ?_) hok
  obtain ⟨m, hm, htype⟩ := List.mem_flatMap.mp htype
  exact hown m hm type htype

theorem survey_error (h : (modules.map Module.identity).Nodup) {error : Error}
    (herror : survey marker modules = .error error) : survey marker (withoutShadowed [] modules) = .error error ∨
      ∃ before type, Shadowed modules before type ∧ (scannerOf marker modules).findsIn type = .error error := by
  rw [survey_eq h] at herror
  rw [survey_withoutShadowed h]
  have hscan : (modules.flatMap (·.types)).mapM (scannerOf marker modules).findsIn = .error error := by
    rw [scannerOf]
    generalize (modules.flatMap (·.types)).mapM (Scanner.findsIn ⟨Index.ofModules modules, marker⟩) = finds
      at herror ⊢
    cases finds with
    | error other => exact congrArg Except.error (Except.error.inj herror)
    | ok finds => exact nomatch herror
  refine (Scanner.mapM_findsIn_eq_error hscan).imp_left fun hkept => ?_
  rw [hkept]
  rfl

end

/-! ## What is resolved -/

namespace Resolver

variable {graph : CallGraph} {cancellation : Cancellation}

/-- An index is needed for reports only. -/
theorem resolveCall_of_graph (ix ix' : Index) (call : CallReference) :
    ((⟨ix, graph⟩ : Resolver).resolveCall cancellation call).result
        = ((⟨ix', graph⟩ : Resolver).resolveCall cancellation call).result ∧
      ((⟨ix, graph⟩ : Resolver).resolveCall cancellation call).cancellation
        = ((⟨ix', graph⟩ : Resolver).resolveCall cancellation call).cancellation := by
  unfold resolveCall
  dsimp only
  split <;> exact ⟨rfl, rfl⟩

theorem collect_of_graph (ix ix' : Index) (found : List TypeRef) (calls : List CallReference) :
    ((⟨ix, graph⟩ : Resolver).collect cancellation found calls).result
      = ((⟨ix', graph⟩ : Resolver).collect cancellation found calls).result := by
  induction calls generalizing cancellation found with
  | nil => rfl
  | cons call rest ih =>
    obtain ⟨hresult, hcancellation⟩ := @resolveCall_of_graph graph cancellation ix ix' call
    rw [collect, collect]
    dsimp only
    rw [hresult]
    split
    · rfl
    · dsimp only
      rw [hcancellation]
      exact ih _

theorem resolve_of_graph (ix ix' : Index) (calls : List CallReference) :
    ((⟨ix, graph⟩ : Resolver).resolve cancellation calls).result
      = ((⟨ix', graph⟩ : Resolver).resolve cancellation calls).result :=
  congrArg (Except.map sortBySpelling) (collect_of_graph ix ix' [] calls)

end Resolver

/-- Lists of modules in which the same is found have the same instantiations. -/
theorem instantiations_of_survey_eq {marker : String} {modules modules' : List Module}
    (h : survey marker modules = survey marker modules') :
    instantiations marker modules = instantiations marker modules' := by
  rw [instantiations, instantiations, ← h]
  refine congrArg _ (funext fun found => ?_)
  exact Resolver.resolve_of_graph _ _ _

/-! ## The table of methods -/

namespace Index

variable {modules : List Module}

/-- A definition declares no method that none of those before it declares. -/
def DeclaresNothing (before : List TypeDef) (type : TypeDef) : Prop :=
  ∀ method ∈ type.methods, ∃ earlier ∈ before, ∃ method' ∈ earlier.methods, method'.id = method.id

theorem methodTable_withoutShadowed (h : (modules.map Module.identity).Nodup) :
    (ofModules (withoutShadowed [] modules)).methodTable = (ofModules modules).methods := by
  have h' : ((withoutShadowed [] modules).map Module.identity).Nodup := by
    rwa [identities_withoutShadowed]
  rw [methodTable, allTypes_ofModules h', types_withoutShadowed, methods_ofModules, types_ofModules h]

theorem methodTable_eq_iff (h : (modules.map Module.identity).Nodup)
    (hown : ∀ m ∈ modules, ∀ type ∈ m.types, type.HoldsOwnMethods) :
    (ofModules modules).methodTable = (ofModules modules).methods ↔
      ∀ before type, Shadowed modules before type → DeclaresNothing before type := by
  rw [methodTable, allTypes_ofModules h, methods_ofModules, types_ofModules h]
  have hown' : ∀ type ∈ modules.flatMap (·.types), ∀ method ∈ type.methods, method.id.declaringType = type.fullName := by
    intro type htype
    obtain ⟨m, hm, htype⟩ := List.mem_flatMap.mp htype
    exact hown m hm type htype
  have hkey : ∀ (before : List TypeDef) (method : Method),
      method.id ∈ (before.flatMap (·.methods)).map (·.id) ↔
        ∃ earlier ∈ before, ∃ method' ∈ earlier.methods, method'.id = method.id := by
    intro before method
    simp only [List.mem_map, List.mem_flatMap]
    exact ⟨fun ⟨method', ⟨earlier, hearlier, hmethod⟩, hid⟩ => ⟨earlier, hearlier, method', hmethod, hid⟩,
      fun ⟨earlier, hearlier, method', hmethod, hid⟩ => ⟨method', ⟨earlier, hearlier, hmethod⟩, hid⟩⟩
  constructor
  · intro hsame before type hshadowed method hmethod
    exact (hkey before method).mp (repeats_of_distinctBy_flatMap hown' hsame before type hshadowed method hmethod)
  · intro hnothing
    refine distinctBy_flatMap_of_repeats fun before type hshadowed method hmethod => ?_
    exact (hkey before method).mpr (hnothing before type hshadowed method hmethod)

/-- **The table and the lookup of methods agree** if and only if no shadowed definition declares a method of its
own. -/
theorem methodTable_agrees_iff (h : (modules.map Module.identity).Nodup)
    (hown : ∀ m ∈ modules, ∀ type ∈ m.types, type.HoldsOwnMethods) :
    (∀ id, (ofModules modules).methodTable.find? (·.id == id) = (ofModules modules).method? id) ↔
      ∀ before type, Shadowed modules before type → DeclaresNothing before type := by
  constructor
  · intro hagree before type hshadowed method hmethod
    have htype : type ∈ modules.flatMap (·.types) := by
      obtain ⟨⟨after, hsplit⟩, -⟩ := hshadowed
      rw [hsplit]
      exact List.mem_append_right _ List.mem_cons_self
    have hown' : ∀ type ∈ modules.flatMap (·.types), type.HoldsOwnMethods := by
      intro type htype
      obtain ⟨m, hm, htype⟩ := List.mem_flatMap.mp htype
      exact hown m hm type htype
    -- the table has a method with this identity, so the lookup finds one, and it is of a canonical type
    obtain ⟨entry, hentry, hid⟩ : ∃ entry ∈ (ofModules modules).methodTable, entry.id = method.id := by
      refine exists_mem_distinctBy (List.mem_flatMap.mpr ⟨type, ?_, hmethod⟩)
      rwa [allTypes_ofModules h]
    have hfind := (find?_key_eq_some_iff (nodup_map_distinctBy _ _)).mpr ⟨hentry, hid⟩
    have hlookup : entry ∈ (ofModules modules).methods :=
      List.mem_of_find?_eq_some ((hagree method.id).symm.trans hfind)
    rw [methods_ofModules, types_ofModules h] at hlookup
    obtain ⟨earlier, hearlier, hentry⟩ := List.mem_flatMap.mp (mem_of_mem_distinctBy hlookup)
    have hname : earlier.fullName = type.fullName := by
      rw [← hown' earlier (mem_of_mem_distinctBy hearlier) entry hentry, hid, hown' type htype method hmethod]
    exact ⟨earlier, hshadowed.mem_before hearlier hname, entry, hentry, hid⟩
  · intro hnothing id
    rw [(methodTable_eq_iff h hown).mpr hnothing]
    rfl

end Index

/--
**What shadowed definitions change.**

Let the modules of a list have identities of their own, and their types hold methods of their own. Without the
shadowed definitions the index finds the same types and methods. A scan that succeeds also succeeds without
them, with the same finds if and only if every shadowed definition adds nothing to what is found before it; a
scan that fails also fails without them, unless it fails at one of them. Where the finds are the same, so are
the instantiations. The table of all methods is the same, and agrees with the lookup of methods, if and only if
every shadowed definition declares nothing that is not declared before it.
-/
theorem shadowed_iff {modules : List Module} (hidentities : (modules.map Module.identity).Nodup)
    (hown : ∀ m ∈ modules, ∀ type ∈ m.types, type.HoldsOwnMethods) (marker : String) :
    ((Index.ofModules modules).types = (Index.ofModules (withoutShadowed [] modules)).types ∧
      (Index.ofModules modules).methods = (Index.ofModules (withoutShadowed [] modules)).methods) ∧
    (∀ found, survey marker modules = .ok found →
      ∃ found', survey marker (withoutShadowed [] modules) = .ok found' ∧
        (found = found' ↔ ∀ before type, Shadowed modules before type →
          (scannerOf marker modules).AddsNothing before type)) ∧
    (∀ error, survey marker modules = .error error →
      survey marker (withoutShadowed [] modules) = .error error ∨
        ∃ before type, Shadowed modules before type ∧
          (scannerOf marker modules).findsIn type = .error error) ∧
    (survey marker modules = survey marker (withoutShadowed [] modules) →
      instantiations marker modules = instantiations marker (withoutShadowed [] modules)) ∧
    ((Index.ofModules modules).methodTable = (Index.ofModules (withoutShadowed [] modules)).methodTable ↔
      ∀ before type, Shadowed modules before type → Index.DeclaresNothing before type) ∧
    ((∀ id, (Index.ofModules modules).methodTable.find? (·.id == id) = (Index.ofModules modules).method? id) ↔
      ∀ before type, Shadowed modules before type → Index.DeclaresNothing before type) := by
  refine ⟨⟨?_, ?_⟩, ?_, ?_, instantiations_of_survey_eq, ?_, Index.methodTable_agrees_iff hidentities hown⟩
  · exact (Index.types_ofModules_withoutShadowed hidentities).symm
  · exact (Index.methods_ofModules_withoutShadowed hidentities).symm
  · intro found hfound
    exact survey_ok_iff hidentities hown hfound
  · intro error herror
    exact survey_error hidentities herror
  · rw [Index.methodTable_withoutShadowed hidentities]
    exact Index.methodTable_eq_iff hidentities hown

/-! ## A shadowed definition that is scanned -/

namespace Shadowing

open Workshop (made work passing jobFor)

def main : Workshop.Worker where
  name := "Main"
  tasks := [.call "Work" "Run" "Int"]

/-- `Main` calls the `Run` of `Work`, which does nothing. -/
def left : Module := Workshop.shop "Left" [("Work", [{ Workshop.run with tasks := [] }]), ("Start", [main])]

/-- Another `Work`, with a `Run` that holds a job and with a method of its own. -/
def right : Module where
  name := "Right"
  types := [Workshop.declaring "Right" "Work" [Workshop.run, { name := "Stop", tasks := [] }]]

def emptied : Module where
  name := "Right"

def job : CallReference := made (work "Run")

def site : CallSite := passing ⟨"Start", "Main", []⟩ (work "Run") (.named "Int" [])

theorem withoutShadowed_both : withoutShadowed [] [left, right] = [left, emptied] := by cbv

theorem survey_both : survey "job" [left, right] = .ok { calls := [job], callSites := [site] } := by cbv

theorem survey_first : survey "job" [left, emptied] = .ok { callSites := [site] } := by cbv

theorem comesTo_job : Walk.ComesTo (.ofSites [site]) job [jobFor (.named "Int" [])] := ⟨2, by decide, by decide⟩

theorem instantiations_both : instantiations "job" [left, right] = .ok [jobFor (.named "Int" [])] := by
  rw [instantiations_of_single_targets survey_both (.cons comesTo_job .nil)]
  exact congrArg Except.ok (Resolver.sortBySpelling_singleton _)

theorem instantiations_first : instantiations "job" [left, emptied] = .ok [] := by
  rw [instantiations_of_single_targets survey_first .nil]
  exact congrArg Except.ok Resolver.sortBySpelling_nil

theorem identities : ([left, right].map Module.identity).Nodup := by decide

theorem ownMethods : ∀ m ∈ [left, right], ∀ type ∈ m.types, type.HoldsOwnMethods := by
  unfold TypeDef.HoldsOwnMethods
  decide

theorem survey_ne : survey "job" [left, right] ≠ survey "job" (withoutShadowed [] [left, right]) := by
  rw [withoutShadowed_both, survey_both, survey_first]
  intro h
  exact absurd (Except.ok.inj h) (by decide)

/-- The table has the second method of the second `Work`, which no lookup finds. -/
theorem find?_stop_ne : (Index.ofModules [left, right]).methodTable.find? (·.id == ⟨"Work", "Stop", []⟩)
    ≠ (Index.ofModules [left, right]).method? ⟨"Work", "Stop", []⟩ := by
  intro h
  have hsome := congrArg Option.isSome h
  exact absurd hsome (by decide)

/-- **A definition that no lookup finds is scanned all the same.** The job that the second `Work` holds is found and
resolved, though its `Run` is not the one that an index finds, and the table of methods has a method that a lookup
does not find. -/
theorem shadowed_scanned : ([left, right].map Module.identity).Nodup ∧
    survey "job" [left, right] ≠ survey "job" (withoutShadowed [] [left, right]) ∧
    instantiations "job" [left, right] ≠ instantiations "job" (withoutShadowed [] [left, right]) ∧
    (Index.ofModules [left, right]).methodTable.find? (·.id == ⟨"Work", "Stop", []⟩)
      ≠ (Index.ofModules [left, right]).method? ⟨"Work", "Stop", []⟩ := by
  refine ⟨identities, survey_ne, fun h => ?_, find?_stop_ne⟩
  rw [withoutShadowed_both, instantiations_both, instantiations_first] at h
  exact absurd (Except.ok.inj h) (by decide)

/-- So the second `Work` adds something to what is found before it, and it declares something. -/
theorem exists_shadowed : ([left, right].map Module.identity).Nodup ∧
    (∀ m ∈ [left, right], ∀ type ∈ m.types, type.HoldsOwnMethods) ∧
    (∃ before type, Shadowed [left, right] before type ∧ ¬ (scannerOf "job" [left, right]).AddsNothing before type) ∧
    ∃ before type, Shadowed [left, right] before type ∧ ¬ Index.DeclaresNothing before type := by
  obtain ⟨-, hscan, -, -, -, htable⟩ := shadowed_iff identities ownMethods "job"
  refine ⟨identities, ownMethods, ?_, ?_⟩
  · by_contra hnone
    obtain ⟨found', hfound', hiff⟩ := hscan _ survey_both
    have hsame := hiff.mpr fun before type hshadowed => by
      by_contra hadds
      exact hnone ⟨before, type, hshadowed, hadds⟩
    exact survey_ne (survey_both.trans ((congrArg Except.ok hsame).trans hfound'.symm))
  · by_contra hnone
    refine find?_stop_ne (htable.mpr (fun before type hshadowed => ?_) _)
    by_contra hdeclares
    exact hnone ⟨before, type, hshadowed, hdeclares⟩

end Shadowing

end JobClosure
