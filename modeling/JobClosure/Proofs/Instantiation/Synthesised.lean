import JobClosure.Proofs.CallSite.JobCalls
import JobClosure.Proofs.CallSite.Workshop
import JobClosure.Proofs.Instantiation.Union
import JobClosure.Synthesis
import Mathlib

/-!
# Synthesising what was resolved

Every instantiation of some modules is closed and names a job type of their index. It goes back to a reference in a
body with the same name and the same number of arguments, because a substitution changes neither
(`Resolver.Reaches.outline`). A scan never compares this number with the number of generic parameters of the template,
and a synthesis does. So a group can be made of the instantiations exactly if the references that lead to one fit
their templates; otherwise the first instantiation that does not fit is what the synthesis fails with, and nothing is
made of the others either (`instantiations_synthesized`).
-/

namespace JobClosure

/-! ## What a substitution keeps -/

namespace TypeArg

/-- The name of a reference and the number of its arguments. -/
def outline : TypeArg → Option (String × Nat)
  | .param _ => none
  | .named name args => some (name, args.length)

theorem length_substAll (bindings : Bindings) (args : List TypeArg) :
    (substAll bindings args).length = args.length := by
  induction args with
  | nil => rfl
  | cons arg rest ih => rw [substAll, List.length_cons, List.length_cons, ih]

theorem outline_subst {arg : TypeArg} {outline : String × Nat} (h : arg.outline = some outline)
    (bindings : Bindings) : (arg.subst bindings).outline = some outline := by
  cases arg with
  | param p => exact nomatch h
  | named name args =>
    rw [subst, TypeArg.outline, length_substAll]
    exact h

end TypeArg

/-- **What a call reference comes to has its name and its number of arguments.** -/
theorem Resolver.Reaches.outline {r : Resolver} {call : CallReference} {ref : TypeRef} (h : r.Reaches call ref)
    {outline : String × Nat} (htarget : call.target.outline = some outline) : ref.toArg.outline = some outline := by
  obtain ⟨s, hs, hend⟩ := h
  have hkept : s.target.outline = some outline := by
    refine hs.invariant (P := fun s => s.target.outline = some outline) htarget ?_
    intro s _ hs t ht
    obtain ⟨site, -, rfl⟩ := CallGraph.of_mem_successors ht
    exact TypeArg.outline_subst hs site.bindings
  rwa [(TypeArg.closed?_eq_some_iff.mp hend).2] at hkept

theorem Resolver.Reaches.isOpen_eq_false {r : Resolver} {call : CallReference} {ref : TypeRef}
    (h : r.Reaches call ref) : ref.isOpen = false := by
  obtain ⟨s, -, hend⟩ := h
  obtain ⟨hclosed, heq⟩ := TypeArg.closed?_eq_some_iff.mp hend
  rwa [heq] at hclosed

/-! ## References that fit their templates -/

/-- A reference has as many arguments as its template has generic parameters. -/
def Index.Fits (ix : Index) (ref : TypeRef) : Prop :=
  ∃ template, ix.type? ref.name = some template ∧ template.genericParams.length = ref.args.length

theorem Index.fits_iff_of_outline {ix : Index} {ref other : TypeRef} (h : ref.toArg.outline = other.toArg.outline) :
    ix.Fits ref ↔ ix.Fits other := by
  obtain ⟨hname, hlength⟩ := Prod.mk.inj (Option.some.inj h)
  unfold Index.Fits
  rw [hname, hlength]

namespace Synthesis

variable {ix : Index} {ref : TypeRef}

theorem closedRef_of_fits (hclosed : ref.isOpen = false) (h : ix.Fits ref) :
    closedRef (some ix) (.ref ref) = .ok ref := by
  obtain ⟨template, htemplate, hlength⟩ := h
  have hcheck : checkTemplate (some ix) ref = .ok () := by
    rw [checkTemplate, htemplate]
    exact if_pos hlength
  rw [closedRef, hclosed, if_neg Bool.false_ne_true, hcheck]
  rfl

theorem closedRef_of_not_fits {template : TypeDef} (hclosed : ref.isOpen = false)
    (htemplate : ix.type? ref.name = some template) (hlength : template.genericParams.length ≠ ref.args.length) :
    closedRef (some ix) (.ref ref) = .error (.wrongArity ref template.genericParams.length) := by
  have hcheck : checkTemplate (some ix) ref = .error (.wrongArity ref template.genericParams.length) := by
    rw [checkTemplate, htemplate]
    exact if_neg hlength
  rw [closedRef, hclosed, if_neg Bool.false_ne_true, hcheck]
  rfl

/-- The first reference of a list that does not fit its template. -/
structure FirstMisfit (ix : Index) (refs : List TypeRef) (ref : TypeRef) (expected : Nat) : Prop where
  first : ∃ before after, refs = before ++ ref :: after ∧ ∀ other ∈ before, ix.Fits other
  template : ∃ template, ix.type? ref.name = some template ∧ template.genericParams.length = expected
  misfit : expected ≠ ref.args.length

theorem FirstMisfit.not_forall_fits {refs : List TypeRef} {expected : Nat} (h : FirstMisfit ix refs ref expected) :
    ¬ ∀ other ∈ refs, ix.Fits other := by
  obtain ⟨⟨before, after, rfl, -⟩, ⟨template, htemplate, rfl⟩, hmisfit⟩ := h
  intro hall
  obtain ⟨found, hfound, hlength⟩ := hall ref (List.mem_append_right _ List.mem_cons_self)
  exact hmisfit ((Option.some.inj (htemplate.symm.trans hfound)) ▸ hlength)

/-- **Closed references with templates** are taken as they are, unless one does not fit. -/
theorem mapM_closedRef_cases {refs : List TypeRef}
    (h : ∀ ref ∈ refs, ref.isOpen = false ∧ ∃ template, ix.type? ref.name = some template) :
    ((∀ ref ∈ refs, ix.Fits ref) ∧ (refs.map Instantiation.ref).mapM (closedRef (some ix)) = .ok refs) ∨
      ∃ ref expected, FirstMisfit ix refs ref expected ∧
        (refs.map Instantiation.ref).mapM (closedRef (some ix)) = .error (.wrongArity ref expected) := by
  induction refs with
  | nil => exact .inl ⟨nofun, rfl⟩
  | cons ref rest ih =>
    obtain ⟨⟨hclosed, template, htemplate⟩, hrest⟩ := List.forall_mem_cons.mp h
    rw [List.map_cons, List.mapM_cons]
    by_cases hlength : template.genericParams.length = ref.args.length
    · -- the first reference fits, so the others decide
      have hfits : ix.Fits ref := ⟨template, htemplate, hlength⟩
      rw [closedRef_of_fits hclosed hfits]
      rcases ih hrest with ⟨hall, hok⟩ | ⟨other, expected, hother, herror⟩
      · rw [hok]
        exact .inl ⟨List.forall_mem_cons.mpr ⟨hfits, hall⟩, rfl⟩
      · obtain ⟨before, after, hsplit, hbefore⟩ := hother.first
        rw [herror]
        refine .inr ⟨other, expected, ⟨⟨ref :: before, after, ?_, ?_⟩, hother.template, hother.misfit⟩, rfl⟩
        · rw [hsplit, List.cons_append]
        · exact List.forall_mem_cons.mpr ⟨hfits, hbefore⟩
    · rw [closedRef_of_not_fits hclosed htemplate hlength]
      exact .inr ⟨ref, _, ⟨⟨[], rest, rfl, nofun⟩, ⟨template, htemplate, rfl⟩, hlength⟩, rfl⟩

end Synthesis

open Synthesis (closedRef FirstMisfit)

/-- A group is made of closed references, or the first fault is reported. -/
theorem Module.synthesize_of_mapM (m : Module) (index : Option Index) {group : String} (items : List Instantiation)
    (hgroup : group ≠ "") :
    (∀ refs, items.mapM (closedRef index) = .ok refs → ∃ made, m.synthesize index group items = .ok made) ∧
      ∀ fault, items.mapM (closedRef index) = .error fault →
        m.synthesize index group items = .error (.synthesis m.name fault) := by
  have hempty : ¬ group.isEmpty = true := fun h => hgroup (String.isEmpty_iff.mp h)
  constructor
  · intro refs hrefs
    rw [synthesize, if_neg hempty, Synthesis.closedRefs, hrefs]
    exact ⟨_, rfl⟩
  · intro fault hfault
    rw [synthesize, if_neg hempty, Synthesis.closedRefs, hfault]
    rfl

/-! ## The instantiations of modules -/

variable {marker : String} {modules : List Module} {found : ScanResult} {refs : List TypeRef}

/-- Every instantiation goes back to an open job with its name and its number of arguments. -/
theorem exists_job_of_mem_instantiations (hfound : survey marker modules = .ok found)
    (hmem : ∀ ref, ref ∈ refs ↔
      ∃ call ∈ found.calls, (⟨Index.ofModules modules, found.graph⟩ : Resolver).Reaches call ref) :
    ∀ ref ∈ refs, ref.isOpen = false ∧ ∃ template,
      (Index.ofModules modules).type? ref.name = some template ∧ (Index.ofModules modules).JobType marker template := by
  intro ref href
  obtain ⟨call, hcall, hreaches⟩ := (hmem ref).mp href
  obtain ⟨m, -, type, -, hin⟩ := Scanner.mem_callsIn_of_scanModules (ScanState.ready_start _) hfound call hcall
  obtain ⟨job, htarget, hjob⟩ := Scanner.openJob_of_mem_callsIn hin
  have houtline := hreaches.outline (htarget ▸ rfl : call.target.outline = some (job.name, job.args.length))
  obtain ⟨hname, -⟩ := Prod.mk.inj (Option.some.inj houtline)
  refine ⟨hreaches.isOpen_eq_false, ?_⟩
  rw [hname]
  exact hjob.template

/-- All instantiations fit their templates if all references do that lead to one. -/
theorem forall_fits_iff (hfound : survey marker modules = .ok found)
    (hmem : ∀ ref, ref ∈ refs ↔
      ∃ call ∈ found.calls, (⟨Index.ofModules modules, found.graph⟩ : Resolver).Reaches call ref) :
    (∀ ref ∈ refs, (Index.ofModules modules).Fits ref) ↔
      ∀ call ∈ found.calls, ∀ job : TypeRef, call.target = job.toArg →
        (∃ ref, (⟨Index.ofModules modules, found.graph⟩ : Resolver).Reaches call ref) →
          (Index.ofModules modules).Fits job := by
  constructor
  · rintro hall call hcall job htarget ⟨ref, hreaches⟩
    have houtline := hreaches.outline (htarget ▸ rfl : call.target.outline = job.toArg.outline)
    exact (Index.fits_iff_of_outline houtline).mp (hall ref ((hmem ref).mpr ⟨call, hcall, hreaches⟩))
  · intro hall ref href
    obtain ⟨call, hcall, hreaches⟩ := (hmem ref).mp href
    obtain ⟨m, -, type, -, hin⟩ := Scanner.mem_callsIn_of_scanModules (ScanState.ready_start _) hfound call hcall
    obtain ⟨job, htarget, -⟩ := Scanner.openJob_of_mem_callsIn hin
    have houtline := hreaches.outline (htarget ▸ rfl : call.target.outline = job.toArg.outline)
    exact (Index.fits_iff_of_outline houtline).mpr (hall call hcall job htarget ⟨ref, hreaches⟩)

/--
**A group can be made of the instantiations exactly if the references that lead to them fit their templates.**

Every list of modules is refused for an overlong position, or has a list of instantiations. All of these are closed and
name job types of the index. A group of some name can be made of the whole list, in any module and checked against the
same index, if and only if every call reference that comes to an instantiation has as many arguments as its template
has generic parameters. Otherwise the synthesis fails because of the first instantiation for which that is not so.
-/
theorem instantiations_synthesized (marker : String) (modules : List Module) :
    (∃ digits, Numeral.digitLimit < digits ∧ instantiations marker modules = .error (.number (.tooLong digits))) ∨
    ∃ found refs, survey marker modules = .ok found ∧ instantiations marker modules = .ok refs ∧
      (∀ ref ∈ refs, ref.isOpen = false ∧ ∃ template,
        (Index.ofModules modules).type? ref.name = some template ∧
          (Index.ofModules modules).JobType marker template) ∧
      ∀ (m : Module) (group : String), group ≠ "" →
        ((∃ made, m.synthesize (some (Index.ofModules modules)) group (refs.map .ref) = .ok made) ↔
          ∀ call ∈ found.calls, ∀ job : TypeRef, call.target = job.toArg →
            (∃ ref, (⟨Index.ofModules modules, found.graph⟩ : Resolver).Reaches call ref) →
              (Index.ofModules modules).Fits job) ∧
        ∀ error, m.synthesize (some (Index.ofModules modules)) group (refs.map .ref) = .error error →
          ∃ ref expected, FirstMisfit (Index.ofModules modules) refs ref expected ∧
            error = .synthesis m.name (.wrongArity ref expected) := by
  rcases survey_cases marker modules with ⟨found, hfound⟩ | ⟨digits, hlong, herror⟩
  · obtain ⟨refs, hrefs, -, -, hmem⟩ :=
      (⟨Index.ofModules modules, found.graph⟩ : Resolver).resolve_answers found.calls
    have hjobs := exists_job_of_mem_instantiations hfound hmem
    refine .inr ⟨found, refs, hfound, (instantiations_of_survey hfound).trans hrefs, hjobs, ?_⟩
    intro m group hgroup
    obtain ⟨hmade, hfault⟩ :=
      Module.synthesize_of_mapM m (some (Index.ofModules modules)) (refs.map .ref) hgroup
    rw [← forall_fits_iff hfound hmem]
    have htemplates : ∀ ref ∈ refs, ref.isOpen = false ∧ ∃ template,
        (Index.ofModules modules).type? ref.name = some template := by
      intro ref href
      obtain ⟨hclosed, template, htemplate, -⟩ := hjobs ref href
      exact ⟨hclosed, template, htemplate⟩
    -- the synthesis goes through the list in order and stops at the first misfit
    rcases Synthesis.mapM_closedRef_cases htemplates with ⟨hall, hok⟩ | ⟨ref, expected, hmisfit, hwrong⟩
    · obtain ⟨made, hmade⟩ := hmade refs hok
      refine ⟨iff_of_true ⟨made, hmade⟩ hall, fun error herror => ?_⟩
      exact nomatch hmade.symm.trans herror
    · have hfails := hfault _ hwrong
      refine ⟨iff_of_false ?_ hmisfit.not_forall_fits, fun error herror => ?_⟩
      · rintro ⟨made, hmade⟩
        exact nomatch hmade.symm.trans hfails
      · exact ⟨ref, expected, hmisfit, (Except.error.inj (herror.symm.trans hfails))⟩
  · refine .inl ⟨digits, hlong, ?_⟩
    rw [instantiations, herror]
    rfl

/-! ## An instantiation that does not fit

`Run` and `Pair` construct a job in terms of their own parameters, `Pair` with an argument too many. -/

namespace Surplus

open Workshop (own made work passing jobFor)

def pair : Workshop.Worker where
  name := "Pair"
  genericParams := ["U"]
  tasks := [.make "Job<!!U, !!U>"]

def main : Workshop.Worker where
  name := "Main"
  tasks := [.call "Work" "Run" "Int", .call "Work" "Pair" "Int"]

def demo : Module := Workshop.shop "Demo" [("Work", [Workshop.run, pair, main])]

def fromRun : CallReference := made (work "Run")

def fromPair : CallReference where
  entry := work "Pair"
  target := .named "Job" [.param (own (work "Pair")), .param (own (work "Pair"))]
  invoked := "Job<!!U, !!U>::.ctor"

def scanned : ScanResult where
  calls := [fromRun, fromPair]
  callSites := [passing (work "Main") (work "Run") (.named "Int" []), passing (work "Main") (work "Pair") (.named "Int" [])]

theorem survey_demo : survey "job" [demo] = .ok scanned := by cbv

/-- The instantiation that fits, and the one that does not. -/
def good : TypeRef := jobFor (.named "Int" [])

def bad : TypeRef := ⟨"Job", [.named "Int" [], .named "Int" []]⟩

theorem comesTo_good : Walk.ComesTo scanned.graph fromRun [good] := ⟨2, by decide, by decide⟩

theorem comesTo_bad : Walk.ComesTo scanned.graph fromPair [bad] := ⟨2, by decide, by decide⟩

theorem instantiations_demo : instantiations "job" [demo] = .ok [bad, good] := by
  have hkept : distinctBy id [good, bad] = [good, bad] := by decide
  have hspell : ¬ good.spell ≤ bad.spell := by decide
  have hresolved := instantiations_of_single_targets survey_demo (.cons comesTo_good (.cons comesTo_bad .nil))
  rwa [hkept, Resolver.sortBySpelling_pair, if_neg hspell] at hresolved

theorem synthesize_demo : demo.synthesize (some (Index.ofModules [demo])) "Jobs" ([bad, good].map .ref)
    = .error (.synthesis "Demo" (.wrongArity bad 1)) := by
  cbv

/-- Only the other instantiation is in the way of this one. -/
theorem synthesize_good :
    ∃ made, demo.synthesize (some (Index.ofModules [demo])) "Jobs" ([good].map .ref) = .ok made := by
  have hfits : (Index.ofModules [demo]).Fits good := ⟨_, rfl, rfl⟩
  refine (Module.synthesize_of_mapM demo _ _ (by decide)).1 [good] ?_
  rw [List.map_singleton, List.mapM_cons, Synthesis.closedRef_of_fits rfl hfits]
  rfl

/-- **One instantiation that does not fit keeps all others out** of a module, and all of them are what the analysis of
modules that were read comes to. -/
theorem surplus_refused : (∀ m ∈ [demo], m.Loaded) ∧ instantiations "job" [demo] = .ok [bad, good] ∧
    demo.synthesize (some (Index.ofModules [demo])) "Jobs" ([bad, good].map .ref)
      = .error (.synthesis "Demo" (.wrongArity bad 1)) ∧
    ∃ made, demo.synthesize (some (Index.ofModules [demo])) "Jobs" ([good].map .ref) = .ok made :=
  ⟨List.forall_mem_singleton.mpr (Workshop.loaded _ _), instantiations_demo, synthesize_demo, synthesize_good⟩

end Surplus

end JobClosure
