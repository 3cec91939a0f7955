import JobClosure.Proofs.CallSite.Edges
import JobClosure.Proofs.CallSite.Keys
import JobClosure.Proofs.Index.Extension
import JobClosure.Proofs.Index.Overloads
import Mathlib

/-!
# Scanning more modules

More modules at the end of a list take nothing back: call references and call sites that a scan found are found again,
in their order. That the index only grows is one half of it (`Index.grows_append`): what was an open job stays one, and
a call chooses the overload that it chose. The other half is that call references are kept once for every key, and a
type that becomes a job brings new call references in between the old ones. They do not displace any. What has one key
has one spelling, and the name of an open reference can be read off its spelling, so references of one key are open
jobs together or not at all (`Scanner.isOpenJob_eq_of_key_eq`). Those that were found are the same references without
the new ones, and in either list the first one of a key is the same.

There are two exceptions (`survey_append`). A body with an overlong position stops the scan, and if the modules that
were added have one, nothing is found at all. And if a method is said to be declared by another type than the one it
stands in, as in no module that was read, a definition of that type may come late and bind more parameters.
-/

namespace JobClosure

/-! ## Lists that go on in longer ones -/

section

variable {α β : Type} {R : β → β → Prop} {xs ys xs' ys' : List β}

theorem sublistForall₂_append (h : xs.SublistForall₂ R ys) (h' : xs'.SublistForall₂ R ys') :
    (xs ++ xs').SublistForall₂ R (ys ++ ys') := by
  obtain ⟨kept, hkept, hsub⟩ := List.sublistForall₂_iff.mp h
  obtain ⟨kept', hkept', hsub'⟩ := List.sublistForall₂_iff.mp h'
  exact List.sublistForall₂_iff.mpr ⟨kept ++ kept', List.rel_append hkept hkept', hsub.append hsub'⟩

theorem sublistForall₂_flatMap {f g : α → List β} (h : ∀ x, (f x).SublistForall₂ R (g x)) (xs : List α) :
    (xs.flatMap f).SublistForall₂ R (xs.flatMap g) := by
  induction xs with
  | nil => exact .nil
  | cons x xs ih =>
    rw [List.flatMap_cons, List.flatMap_cons]
    exact sublistForall₂_append (h x) ih

theorem sublistForall₂_filterMap {f g : α → Option β} (h : ∀ x y, f x = some y → ∃ z, g x = some z ∧ R y z)
    (xs : List α) : (xs.filterMap f).SublistForall₂ R (xs.filterMap g) := by
  induction xs with
  | nil => exact .nil
  | cons x xs ih =>
    rw [List.filterMap_cons, List.filterMap_cons]
    cases hf : f x with
    | none =>
      cases g x with
      | none => exact ih
      | some z => exact .cons_right ih
    | some y =>
      obtain ⟨z, hz, hrelated⟩ := h x y hf
      rw [hz]
      exact .cons hrelated ih

theorem sublist_of_sublistForall₂_eq (h : xs.SublistForall₂ (· = ·) ys) : xs.Sublist ys := by
  obtain ⟨kept, hkept, hsub⟩ := List.sublistForall₂_iff.mp h
  rw [List.forall₂_eq_eq_eq] at hkept
  rwa [hkept]

end

/-! ## Names of open references -/

theorem Spelling.not_mem_of_isName {name : String} (h : isName name = true) : '<' ∉ name.toList := fun hmem =>
  absurd (List.all_eq_true.mp (Bool.and_eq_true_iff.mp h).2 '<' hmem) (by decide)

/-- The name of a reference with arguments can be read off its spelling. -/
theorem TypeRef.name_eq_of_spell_eq {a b : TypeRef} (ha : a.toArg.Grammatical) (hb : b.toArg.Grammatical)
    (haargs : a.args ≠ []) (hbargs : b.args ≠ []) (h : a.toArg.spell = b.toArg.spell) : a.name = b.name := by
  obtain ⟨name, args⟩ := a
  obtain ⟨name', args'⟩ := b
  obtain ⟨first, rest, rfl⟩ := List.exists_cons_of_ne_nil haargs
  obtain ⟨first', rest', rfl⟩ := List.exists_cons_of_ne_nil hbargs
  have hlist := congrArg String.toList h
  rw [toArg, toArg, Spelling.toList_spell_named, Spelling.toList_spell_named] at hlist
  exact String.toList_inj.mp
    (Signature.append_cons_inj (Spelling.not_mem_of_isName ha.1) (Spelling.not_mem_of_isName hb.1) hlist).1

theorem Index.OpenJob.args_ne_nil {ix : Index} {marker : String} {ref : TypeRef} (h : ix.OpenJob marker ref) :
    ref.args ≠ [] := by
  obtain ⟨p, hp⟩ := h.parameter
  intro hnone
  rw [TypeRef.toArg, hnone] at hp
  exact absurd hp List.not_mem_nil

/-! ## Call references -/

namespace Scanner

/-- The one scanner finds at least the definitions of the other one, and looks for the same jobs. -/
structure Grows (s s' : Scanner) : Prop where
  index : s.index.Grows s'.index
  marker : s.marker = s'.marker

/-- Whether the target of a call reference is an open job. -/
def isOpenJob (s : Scanner) (call : CallReference) : Bool :=
  match call.target with
  | .param _ => false
  | .named name args => s.index.OpenJob s.marker ⟨name, args⟩

variable {s s' : Scanner} {type type' : TypeDef} {call call' : CallReference}

theorem callsOf_eq_filter (h : s.Grows s') (entry : MethodId) (instruction : Instruction) :
    s.callsOf entry instruction = (s'.callsOf entry instruction).filter s.isOpenJob := by
  rw [callsOf, callsOf, List.filter_flatMap]
  refine List.flatMap_congr fun arg _ => ?_
  rw [List.filter_map, List.filter_filter]
  refine congrArg (List.map _) (List.filter_congr fun ref _ => ?_)
  show decide (s.index.OpenJob s.marker ref)
    = (decide (s.index.OpenJob s.marker ref) && decide (s'.index.OpenJob s'.marker ref))
  rw [← Bool.decide_and]
  exact decide_eq_decide.mpr ⟨fun hjob => ⟨hjob, h.marker ▸ h.index.openJob hjob⟩, And.left⟩

/-- **The call references of types** are those that are found later, as far as they were open jobs before. -/
theorem flatMap_callsIn_eq_filter (h : s.Grows s') (types : List TypeDef) :
    types.flatMap s.callsIn = (types.flatMap s'.callsIn).filter s.isOpenJob := by
  rw [List.filter_flatMap]
  refine List.flatMap_congr fun type _ => ?_
  rw [callsIn, callsIn, List.filter_flatMap]
  refine List.flatMap_congr fun method _ => ?_
  rw [List.filter_flatMap]
  exact List.flatMap_congr fun instruction _ => callsOf_eq_filter h method.id instruction

theorem grammatical_of_mem_callsIn (h : call ∈ s.callsIn type) : call.target.Grammatical := by
  obtain ⟨method, -, h⟩ := List.mem_flatMap.mp h
  obtain ⟨instruction, hinstruction, h⟩ := List.mem_flatMap.mp h
  obtain ⟨arg, harg, h⟩ := List.mem_flatMap.mp h
  obtain ⟨ref, href, rfl⟩ := List.mem_map.mp h
  exact TypeArg.grammatical_of_nested arg ((readIn_of_mem_instructions hinstruction).grammatical arg harg)
    (List.mem_filter.mp href).1

/-- **Call references of one key** are open jobs together: they name the same template, and a parameter occurs in
either. -/
theorem isOpenJob_eq_of_key_eq (h : call ∈ s'.callsIn type) (h' : call' ∈ s'.callsIn type')
    (hkey : call.key = call'.key) : s.isOpenJob call = s.isOpenJob call' := by
  obtain ⟨ref, htarget, hopen⟩ := openJob_of_mem_callsIn h
  obtain ⟨ref', htarget', hopen'⟩ := openJob_of_mem_callsIn h'
  -- the spelling does not tell whose parameters occur, but it tells the template
  have hname : ref.name = ref'.name := by
    refine TypeRef.name_eq_of_spell_eq (htarget ▸ grammatical_of_mem_callsIn h)
      (htarget' ▸ grammatical_of_mem_callsIn h') hopen.args_ne_nil hopen'.args_ne_nil ?_
    rw [← htarget, ← htarget']
    exact (Prod.mk.inj hkey).1
  rw [isOpenJob, isOpenJob, htarget, htarget']
  exact decide_eq_decide.mpr
    ⟨fun hjob => ⟨hopen'.parameter, hname ▸ hjob.template⟩, fun hjob => ⟨hopen.parameter, hname ▸ hjob.template⟩⟩

/-- **Call references that are kept** are kept among those of more types, in an index that has grown. -/
theorem dedupe_callsIn_sublist (h : s.Grows s') (types more : List TypeDef) :
    (CallReference.dedupe (types.flatMap s.callsIn)).Sublist
      (CallReference.dedupe ((types ++ more).flatMap s'.callsIn)) := by
  have hkeys : ∀ call ∈ types.flatMap s'.callsIn, ∀ call' ∈ types.flatMap s'.callsIn, call.key = call'.key →
      s.isOpenJob call = s.isOpenJob call' := by
    intro call hcall call' hcall' hkey
    obtain ⟨type, -, hcall⟩ := List.mem_flatMap.mp hcall
    obtain ⟨type', -, hcall'⟩ := List.mem_flatMap.mp hcall'
    exact isOpenJob_eq_of_key_eq hcall hcall' hkey
  have hbefore : CallReference.dedupe (types.flatMap s.callsIn)
      = (CallReference.dedupe (types.flatMap s'.callsIn)).filter s.isOpenJob := by
    rw [flatMap_callsIn_eq_filter h]
    exact distinctBy_filter hkeys
  -- the references of the types come first in the longer list, so it keeps the same ones of them
  rw [hbefore, List.flatMap_append]
  exact List.filter_sublist.trans (distinctBy_prefix_append CallReference.key _ _).sublist

end Scanner

/-! ## Call sites -/

/-- The same call, perhaps with more bindings: the type that is said to declare the callee may have been missing. -/
structure CallSite.Kept (ix ix' : Index) (site site' : CallSite) : Prop where
  caller : site'.caller = site.caller
  callee : site'.callee = site.callee
  bindings : site'.bindings = site.bindings ∨
    ix.type? site.callee.declaringType = none ∧ ∃ type, ix'.type? site.callee.declaringType = some type

namespace Scanner

variable {s s' : Scanner} {caller : MethodId} {instruction : Instruction} {site : CallSite}

/-- **A call that was found** is found again. -/
theorem Grows.callSite? (h : s.Grows s') (hsite : s.callSite? caller instruction = some site) :
    ∃ site', s'.callSite? caller instruction = some site' ∧ site.Kept s.index s'.index site' := by
  unfold Scanner.callSite? at hsite
  split at hsite
  · exact nomatch hsite
  · rename_i callee hcallee
    obtain rfl := Option.some.inj hsite
    rw [Scanner.callSite?, h.index.findMethod hcallee]
    refine ⟨_, rfl, rfl, rfl, ?_⟩
    dsimp only
    cases hdeclaring : s.index.declaringType? callee with
    | some type =>
      have hdeclaring' : s'.index.declaringType? callee = some type := h.index _ _ hdeclaring
      rw [hdeclaring']
      exact .inl rfl
    | none =>
      cases hdeclaring' : s'.index.declaringType? callee with
      | none => exact .inl rfl
      | some type => exact .inr ⟨hdeclaring, type, hdeclaring'⟩

/-- Where types hold methods of their own, the type that declares a callee is not missing. -/
theorem Grows.callSite?_of_own (h : s.Grows s')
    (hown : ∀ name type, s.index.type? name = some type → type.HoldsOwnMethods)
    (hsite : s.callSite? caller instruction = some site) : s'.callSite? caller instruction = some site := by
  obtain ⟨site', hsite', hkept⟩ := h.callSite? hsite
  obtain ⟨owner, callee, -, howner, hmem, rfl⟩ := exists_callee_of_callSite? hown hsite
  have hdeclaring : s.index.type? callee.id.declaringType = some owner := by
    rw [hown _ _ howner callee hmem]
    exact Index.canonical_of_type? howner
  rcases hkept.bindings with hbindings | ⟨hnone, -⟩
  · obtain ⟨caller', callee', bindings⟩ := site'
    obtain rfl : caller' = caller := hkept.caller
    obtain rfl : callee' = callee.id := hkept.callee
    obtain rfl : bindings = _ := hbindings
    exact hsite'
  · exact nomatch hdeclaring.symm.trans hnone

theorem sublistForall₂_sitesIn (s s' : Scanner) {R : CallSite → CallSite → Prop}
    (h : ∀ caller instruction site, s.callSite? caller instruction = some site →
      ∃ site', s'.callSite? caller instruction = some site' ∧ R site site') (types : List TypeDef) :
    (types.flatMap s.sitesIn).SublistForall₂ R (types.flatMap s'.sitesIn) := by
  refine sublistForall₂_flatMap (fun type => ?_) types
  rw [sitesIn, sitesIn]
  exact sublistForall₂_flatMap (fun method => sublistForall₂_filterMap (h method.id) _) type.methods

end Scanner

/-! ## All modules -/

theorem methodsOf_append (modules extra : List Module) :
    (Index.ofModules (modules ++ extra)).methodsOf (modules ++ extra)
      = (Index.ofModules modules).methodsOf modules ++ (Index.ofModules (modules ++ extra)).methodsOf extra := by
  have hmethods : ∀ (ix : Index) (ms : List Module), ix.methodsOf ms = (ms.flatMap ix.typesOf).flatMap Scanner.methodsOf :=
    fun ix ms => List.flatMap_assoc.symm
  rw [hmethods, hmethods, hmethods, Index.flatMap_typesOf_append, List.flatMap_append]

/--
**More modules take nothing back, unless a position is overlong.**

Let a scan of some modules find what it finds, and let more modules come after them. If no body of those is overlong,
then the scan of all of them finds the call references again, in the same order, and likewise the call sites: each with
its caller and its callee, and with its bindings too, unless the callee is said to be declared by a type that was
missing and is no longer. In modules that were read no such type is missing. If some body of them is overlong, the scan
is stopped, and nothing is found.
-/
theorem survey_append (marker : String) (modules extra : List Module) {found : ScanResult}
    (h : survey marker modules = .ok found) :
    ((∀ entry ∈ (Index.ofModules (modules ++ extra)).methodsOf extra, ¬ entry.2.Overlong entry.1) ∧
      ∃ more, survey marker (modules ++ extra) = .ok more ∧ found.calls.Sublist more.calls ∧
        found.callSites.SublistForall₂ (CallSite.Kept (Index.ofModules modules) (Index.ofModules (modules ++ extra)))
          more.callSites ∧
        ((∀ m ∈ modules, m.Loaded) → found.callSites.Sublist more.callSites)) ∨
    ((∃ entry ∈ (Index.ofModules (modules ++ extra)).methodsOf extra, entry.2.Overlong entry.1) ∧
      ∃ digits, Numeral.digitLimit < digits ∧
        survey marker (modules ++ extra) = .error (.number (.tooLong digits))) := by
  let s : Scanner := ⟨Index.ofModules modules, marker⟩
  let s' : Scanner := ⟨Index.ofModules (modules ++ extra), marker⟩
  have hgrows : s.Grows s' := ⟨Index.grows_append modules extra, rfl⟩
  have hcases := survey_or_overlong marker (modules ++ extra)
  rw [methodsOf_append] at hcases
  rcases hcases with ⟨hshort, more, hmore⟩ | ⟨⟨entry, hentry, hover⟩, herror⟩
  · refine .inl ⟨fun entry hentry => hshort entry (List.mem_append_right _ hentry), more, hmore, ?_⟩
    obtain ⟨hcalls, hsites⟩ := finds_of_survey h
    obtain ⟨hcalls', hsites'⟩ := finds_of_survey hmore
    rw [Index.flatMap_typesOf_append] at hcalls' hsites'
    rw [List.flatMap_append] at hsites'
    rw [hcalls, hcalls', hsites, hsites']
    refine ⟨Scanner.dedupe_callsIn_sublist hgrows _ _, ?_, fun hloaded => ?_⟩
    · rw [← List.append_nil (List.flatMap _ _)]
      exact sublistForall₂_append (Scanner.sublistForall₂_sitesIn s s'
        (fun _ _ _ hsite => hgrows.callSite? hsite) _) .nil
    · -- types that were read declare what they are looked up for, so no binding changes
      have hown : ∀ name type, s.index.type? name = some type → type.HoldsOwnMethods := fun _ type htype =>
        Index.holdsOwnMethods_of_mem_types hloaded type (List.mem_of_find?_eq_some htype)
      refine (sublist_of_sublistForall₂_eq ?_).trans (List.sublist_append_left _ _)
      exact Scanner.sublistForall₂_sitesIn s s'
        (fun _ _ site hsite => ⟨site, hgrows.callSite?_of_own hown hsite, rfl⟩) _
  · -- the modules alone are scanned, so the overlong body is in one that was added
    refine .inr ⟨⟨entry, (List.mem_append.mp hentry).resolve_left fun hold => ?_, hover⟩, herror⟩
    rcases survey_or_overlong marker modules with ⟨hshort, -⟩ | ⟨-, digits, -, hfails⟩
    · exact hshort entry hold hover
    · exact nomatch h.symm.trans hfails

/-! ## A call that is found again, and one that is lost -/

namespace Growth

def document : String := "(module \"Base\"
  (type \"Core.IJob\" (interface) (attributes \"Unity.Jobs.LowLevel.Unsafe.JobProducerTypeAttribute\"))
  (type \"Base.Job\" (generic \"A\") (interfaces \"Core.IJob\"))
  (type \"Base.Work\"
    (method \"Run\" (generic \"U\") (body (newobj \"Base.Job<!!U>\")))
    (method \"Main\" (body (call \"Base.Work\" \"Run\" (\"Core.Int32\"))))))"

def jobs : TypeDef where
  fullName := "Core.IJob"
  isInterface := true
  attributes := [Index.defaultMarker]
  module := "Base"

def job : TypeDef where
  fullName := "Base.Job"
  genericParams := ["A"]
  interfaces := [⟨"Core.IJob", []⟩]
  module := "Base"

def run : Method where
  id := ⟨"Base.Work", "Run", []⟩
  genericParams := ["U"]
  body := some [.list [.symbol "newobj", .text "Base.Job<!!U>"]]
  module := "Base"

def main : Method where
  id := ⟨"Base.Work", "Main", []⟩
  body := some [.list [.symbol "call", .text "Base.Work", .text "Run", .list [.text "Core.Int32"]]]
  module := "Base"

def work : TypeDef where
  fullName := "Base.Work"
  methods := [run, main]
  module := "Base"

def base : Module := { name := "Base", types := [jobs, job, work] }

/-- The job that `run` makes, and the call to it. -/
def finds : ScanResult where
  calls := [⟨run.id, .named "Base.Job" [.param (run.parameter "U")], "Base.Job<!!U>::.ctor"⟩]
  callSites := [⟨main.id, run.id, [(run.parameter "U", .named "Core.Int32" [])]⟩]

/-- Other definitions of the names, with which nothing would be found. -/
def late : Module where
  name := "Late"
  types := [{ jobs with attributes := [] }, { job with interfaces := [] }, { work with methods := [] }]

set_option maxRecDepth 4000 in
theorem loaded_base : base.Loaded := .of_characters document String.toList_ofList (by cbv)

theorem survey_base : survey Index.defaultMarker [base] = .ok finds := by
  cbv

/-- **What was found is found again** when other definitions of all names come late. -/
theorem found_again : survey Index.defaultMarker [base] = .ok finds ∧
    ∃ more, survey Index.defaultMarker ([base] ++ [late]) = .ok more ∧ finds.calls.Sublist more.calls ∧
      finds.callSites.Sublist more.callSites := by
  rcases survey_append Index.defaultMarker [base] [late] survey_base with
    ⟨-, more, hmore, hcalls, -, hsites⟩ | ⟨⟨entry, hentry, -⟩, -⟩
  · exact ⟨survey_base, more, hmore, hcalls, hsites (List.forall_mem_singleton.mpr loaded_base)⟩
  · exact absurd hentry List.not_mem_nil

/-- The methods that a scan of both modules comes to. -/
theorem methodsOf_base_demo (digits : Nat) :
    (Index.ofModules ([base] ++ [Overlong.demo digits])).methodsOf ([base] ++ [Overlong.demo digits])
      = [(work, run), (work, main), (Overlong.work digits, Overlong.run digits)] := rfl

theorem skips_work : Scanner.skips (work, run) = .ok [] ∧ Scanner.skips (work, main) = .ok [] := by
  constructor
  · cbv
  · cbv

theorem survey_base_demo {digits : Nat} (h : Numeral.digitLimit < digits) :
    survey Index.defaultMarker ([base] ++ [Overlong.demo digits]) = .error (.number (.tooLong digits)) := by
  obtain ⟨clean, -, -, hfound⟩ := mars_survey Index.defaultMarker ([base] ++ [Overlong.demo digits])
  rw [hfound, methodsOf_base_demo, List.mapM_cons, skips_work.1, List.mapM_cons, skips_work.2, List.mapM_cons,
    Scanner.skips, Overlong.fault_run h]
  rfl

/-- **A module with 4301 zeros takes back what was found.** -/
theorem taken_back : base.Loaded ∧ (Overlong.demo 4301).Loaded ∧
    survey Index.defaultMarker [base] = .ok finds ∧
    survey Index.defaultMarker ([base] ++ [Overlong.demo 4301]) = .error (.number (.tooLong 4301)) :=
  ⟨loaded_base, Overlong.loaded_demo, survey_base, survey_base_demo (by decide)⟩

end Growth

end JobClosure
