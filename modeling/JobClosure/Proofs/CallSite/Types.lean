import JobClosure.Instantiation.Survey
import JobClosure.Proofs.CallSite.Order

/-!
# Scanning type by type

Which module a type stands in plays no part in a scan. A module contributes what its types contribute, each
as if it were scanned alone (`scanTypes_eq`), and call references that two modules share are kept once like
those that two types of one module share. So the analysis of a list of modules is the analysis of all their
types, one after the other (`survey_eq`).
-/

namespace JobClosure

open Index (Memo)

theorem ScanResult.eq_iff {a b : ScanResult} :
    a = b ↔ a.calls = b.calls ∧ a.callSites = b.callSites ∧ a.diagnostics = b.diagnostics := by
  cases a
  cases b
  exact ScanResult.mk.injEq _ _ _ _ _ _ ▸ Iff.rfl

/-- Call references that are dropped from a part of the finds need not be dropped from the whole. -/
theorem ScanResult.dedupeCalls_append (a b : ScanResult) :
    (a.dedupeCalls ++ b.dedupeCalls).dedupeCalls = (a ++ b).dedupeCalls := by
  have hcalls : (a.dedupeCalls ++ b.dedupeCalls).dedupeCalls.calls = (a ++ b).dedupeCalls.calls :=
    distinctBy_append_distinctBy a.calls b.calls
  exact congrArg (fun calls => (⟨calls, a.callSites ++ b.callSites, a.diagnostics ++ b.diagnostics⟩ : ScanResult))
    hcalls

theorem ScanResult.dedupeCalls_dedupeCalls (a : ScanResult) : a.dedupeCalls.dedupeCalls = a.dedupeCalls := by
  have hcalls : a.dedupeCalls.dedupeCalls.calls = a.dedupeCalls.calls :=
    distinctBy_eq_self (nodup_map_distinctBy CallReference.key a.calls)
  exact congrArg (fun calls => (⟨calls, a.callSites, a.diagnostics⟩ : ScanResult)) hcalls

theorem ScanResult.append_assoc (a b c : ScanResult) : a ++ b ++ c = a ++ (b ++ c) := by
  show ScanResult.mk (a.calls ++ b.calls ++ c.calls) (a.callSites ++ b.callSites ++ c.callSites)
    (a.diagnostics ++ b.diagnostics ++ c.diagnostics) = _
  rw [List.append_assoc, List.append_assoc, List.append_assoc]
  rfl

namespace Scanner

variable {s s' : Scanner} {state : ScanState}

theorem together_append (finds finds' : List ScanResult) :
    together (finds ++ finds') = together finds ++ together finds' := by
  induction finds with
  | nil => rfl
  | cons found finds ih =>
    show found ++ together (finds ++ finds') = found ++ together finds ++ together finds'
    rw [ih, ScanResult.append_assoc]

/-- What a type contributes when it is scanned alone. -/
def findsIn (s : Scanner) (type : TypeDef) : Except Error ScanResult := (s.scanType [] type).map Prod.fst

theorem Agrees.findsIn {known : String → Prop} (h : s.Agrees known s') {type : TypeDef}
    (hnames : NamesInBodies known type) : s.findsIn type = s'.findsIn type := by
  have hmethods := h.scanMethods (Memo.sound_nil _) (Memo.sound_nil _) hnames
  rw [Scanner.findsIn, Scanner.findsIn, scanType, scanType]
  generalize s.scanMethods type [] type.methods = found at hmethods ⊢
  generalize s'.scanMethods type [] type.methods = found' at hmethods ⊢
  cases hmethods with
  | failed error => rfl
  | found hfound => exact congrArg Except.ok hfound.answer

/-- **Every type contributes what it contributes alone.** -/
theorem scanTypes_eq (hstate : state.Ready s.index) (types : List TypeDef) :
    (s.scanTypes state types).1 = together <$> types.mapM s.findsIn := by
  induction types generalizing state with
  | nil => rfl
  | cons type rest ih =>
    obtain ⟨memo, cancellation⟩ := state
    obtain ⟨hmemo, rfl⟩ := hstate
    have hfirst := (Agrees.refl s).scanMethods hmemo (Memo.sound_nil _) (namesInBodies_anyName type)
    rw [scanTypes, List.mapM_cons, findsIn, scanType, scanType]
    dsimp only [Cancellation.ask?]
    generalize s.scanMethods type memo type.methods = first at hfirst ⊢
    generalize s.scanMethods type [] type.methods = alone at hfirst ⊢
    cases hfirst with
    | failed error => rfl
    | @found x y hfirst =>
      have hnext : ScanState.Ready ⟨x.2, .never⟩ s.index := ⟨hfirst.left, rfl⟩
      dsimp only
      rw [ih hnext, hfirst.answer]
      cases rest.mapM s.findsIn with
      | error error => rfl
      | ok more => rfl

/-- Modules are scanned like all their types one after the other. -/
theorem dedupeCalls_scanEach (hstate : state.Ready s.index) (modules : List Module) :
    ((s.scanEach state modules).1).map ScanResult.dedupeCalls
      = (fun finds => (together finds).dedupeCalls) <$> (modules.flatMap s.index.typesOf).mapM s.findsIn := by
  induction modules generalizing state with
  | nil => rfl
  | cons m rest ih =>
    obtain ⟨-, hnext⟩ := (Agrees.refl s).scanModule hstate (ScanState.ready_start s.index) (m := m) rfl
      fun type _ => namesInBodies_anyName type
    have hfirst : (s.scanModule state m).1
        = (together <$> (s.index.typesOf m).mapM s.findsIn).map ScanResult.dedupeCalls := by
      rw [scanModule, ← scanTypes_eq hstate]
    have hrest := ih hnext
    rw [scanEach, List.flatMap_cons, List.mapM_append]
    generalize s.scanModule state m = first at hfirst hrest ⊢
    obtain ⟨first, next⟩ := first
    dsimp only at hfirst hrest
    subst hfirst
    -- either side stops at the first module that fails
    cases (s.index.typesOf m).mapM s.findsIn with
    | error error => rfl
    | ok finds =>
      show Except.map ScanResult.dedupeCalls ((s.scanEach next rest).1.map ((together finds).dedupeCalls ++ ·)) = _
      cases hmore : (rest.flatMap s.index.typesOf).mapM s.findsIn with
      | error error =>
        rw [hmore] at hrest
        generalize (s.scanEach next rest).1 = others at hrest ⊢
        cases others with
        | error other => exact hrest
        | ok others => cases hrest
      | ok more =>
        rw [hmore] at hrest
        generalize (s.scanEach next rest).1 = others at hrest ⊢
        cases others with
        | error other => cases hrest
        | ok others =>
          have hsame : others.dedupeCalls = (together more).dedupeCalls := Except.ok.inj hrest
          show Except.ok ((together finds).dedupeCalls ++ others).dedupeCalls
            = Except.ok (together (finds ++ more)).dedupeCalls
          rw [together_append, ← ScanResult.dedupeCalls_append, ScanResult.dedupeCalls_dedupeCalls, hsame,
            ScanResult.dedupeCalls_append]

end Scanner

section

variable {marker : String} {modules : List Module}

/-- **The analysis of modules is the analysis of the types that the index holds for them.** -/
theorem survey_eq_typesOf (marker : String) (modules : List Module) : survey marker modules
    = (fun finds => (Scanner.together finds).dedupeCalls) <$>
        (modules.flatMap (Index.ofModules modules).typesOf).mapM
          (Scanner.findsIn ⟨Index.ofModules modules, marker⟩) :=
  Scanner.dedupeCalls_scanEach (s := ⟨Index.ofModules modules, marker⟩) (ScanState.ready_start _) modules

/-- **The analysis of modules is the analysis of all their types**, if they have identities of their own. -/
theorem survey_eq (h : (modules.map Module.identity).Nodup) : survey marker modules
    = (fun finds => (Scanner.together finds).dedupeCalls) <$>
        (modules.flatMap (·.types)).mapM (Scanner.findsIn ⟨Index.ofModules modules, marker⟩) := by
  rw [survey_eq_typesOf, List.flatMap_congr fun m hm => Index.typesOf_ofModules h hm]

end

end JobClosure
