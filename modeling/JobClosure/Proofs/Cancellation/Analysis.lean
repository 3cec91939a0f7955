import JobClosure.CallSite.Scan
import JobClosure.Proofs.Cancellation.Questions
import JobClosure.Proofs.Except
import JobClosure.Proofs.Instantiation.Answer

/-!
# The questions of an analysis

A scan asks before every type, resolving asks before every step of a walk. How many questions that makes depends on
what is scanned and resolved, never on the cancellation, and neither does the result: what has been memoised, found and
reported by then is the same whether or not more questions would be answered with no.
-/

namespace JobClosure

/-! ## Scanning -/

namespace Scanner

/-- Scanning a method is not cancelled. -/
theorem scanMethod_ne_cancelled (s : Scanner) (type : TypeDef) (memo : Index.Memo) (method : Method) :
    s.scanMethod type memo method ≠ .error .cancelled := by
  unfold scanMethod
  split
  · exact nofun
  · split
    · exact nofun
    · exact nofun
    · exact nofun

theorem scanMethods_ne_cancelled (s : Scanner) (type : TypeDef) (memo : Index.Memo) (methods : List Method) :
    s.scanMethods type memo methods ≠ .error .cancelled := by
  induction methods generalizing memo with
  | nil => exact nofun
  | cons method rest ih =>
    intro h
    rcases bind_eq_error h with hfirst | ⟨first, -, h⟩
    · exact s.scanMethod_ne_cancelled type memo method hfirst
    · rcases bind_eq_error h with hmore | ⟨more, -, hnone⟩
      · exact ih _ hmore
      · exact nomatch hnone

/-- **Scanning types** asks before every one of them, up to one that cannot be scanned. -/
theorem polls_scanTypes (s : Scanner) (memo : Index.Memo) (types : List TypeDef) :
    Polls ScanState.mk fun c => s.scanTypes ⟨memo, c⟩ types := by
  induction types generalizing memo with
  | nil => exact .nothing memo nofun
  | cons type rest ih =>
    have hstops : ∀ c : Cancellation, c.ask? = none → Cancelled (s.scanTypes ⟨memo, c⟩ (type :: rest)) := by
      intro c hnone
      rw [scanTypes]
      dsimp only
      rw [hnone]
      rfl
    -- the question comes before the scan of the type, so it has been asked where that scan fails
    cases hfirst : s.scanType memo type with
    | error error =>
      have hfails : (.error error : Except Error ScanResult) ≠ .error .cancelled := by
        intro hcancelled
        obtain rfl := Except.error.inj hcancelled
        exact s.scanMethods_ne_cancelled type memo type.methods hfirst
      refine (Polls.nothing memo hfails).once ?_ hstops
      intro c left hleft
      rw [scanTypes]
      dsimp only
      rw [hleft]
      dsimp only
      rw [hfirst]
    | ok found =>
      obtain ⟨first, memo'⟩ := found
      refine ((ih memo').map (first ++ ·)).once ?_ hstops
      intro c left hleft
      rw [scanTypes]
      dsimp only
      rw [hleft]
      dsimp only
      rw [hfirst]

theorem polls_scanModule (s : Scanner) (memo : Index.Memo) (m : Module) :
    Polls ScanState.mk fun c => s.scanModule ⟨memo, c⟩ m :=
  (s.polls_scanTypes memo (s.index.typesOf m)).map ScanResult.dedupeCalls

theorem scanEach_cons (s : Scanner) (state : ScanState) (m : Module) (rest : List Module) :
    s.scanEach state (m :: rest) = onResult (s.scanModule state m) fun first state =>
      ((s.scanEach state rest).1.map (first ++ ·), (s.scanEach state rest).2) := by
  rw [scanEach]
  rcases s.scanModule state m with ⟨error | first, state'⟩
  · rfl
  · rfl

theorem polls_scanEach (s : Scanner) (memo : Index.Memo) (modules : List Module) :
    Polls ScanState.mk fun c => s.scanEach ⟨memo, c⟩ modules := by
  induction modules generalizing memo with
  | nil => exact .nothing memo nofun
  | cons m rest ih =>
    simp only [scanEach_cons]
    exact (s.polls_scanModule memo m).onResult fun first memo' => (ih memo').map (first ++ ·)

/-- **Scanning modules** asks before every type in them, up to one that cannot be scanned. -/
theorem polls_scanModules (s : Scanner) (memo : Index.Memo) (modules : List Module) :
    Polls ScanState.mk fun c => s.scanModules ⟨memo, c⟩ modules :=
  (s.polls_scanEach memo modules).map ScanResult.dedupeCalls

/-- **A scan that was cancelled before it started** is stopped at the first type that it comes to. -/
theorem cancelled_scanEach (s : Scanner) (memo : Index.Memo) {modules : List Module}
    (htypes : ∃ m ∈ modules, s.index.typesOf m ≠ []) : Cancelled (s.scanEach ⟨memo, .now⟩ modules) := by
  induction modules with
  | nil =>
    obtain ⟨m, hm, -⟩ := htypes
    exact absurd hm List.not_mem_nil
  | cons m rest ih =>
    rw [scanEach, scanModule]
    cases hfirst : s.index.typesOf m with
    | cons type more => rfl
    | nil =>
      -- a module without types is passed over
      obtain ⟨other, hother, hsome⟩ := htypes
      rcases List.mem_cons.mp hother with rfl | hother
      · exact absurd hfirst hsome
      · exact cancelled_map_iff.mpr (ih ⟨other, hother, hsome⟩)

end Scanner

/-! ## Resolving -/

/-- A resolution as a result with a state. -/
def Resolution.out (resolution : Resolution) : Except Error (List TypeRef) × List Diagnostic × Cancellation :=
  (resolution.result, resolution.diagnostics, resolution.cancellation)

namespace Resolver

variable (r : Resolver)

/-- **Resolving a call reference** asks before every step of its walk. -/
theorem polls_resolveCall (call : CallReference) : Polls Prod.mk fun c => (r.resolveCall c call).out := by
  obtain ⟨n, hends, -⟩ := Walk.exists_endsAt r.graph call
  let found := (Walk.after r.graph call n).found
  refine ⟨n, .ok (sortBySpelling found), if found.isEmpty then [r.unresolved call] else [], .of_runs ?_ ?_ ?_ ?_⟩
  · rw [resolveCall, hends.run_never]
    rfl
  · intro questions hle
    rw [resolveCall, hends.run_after, if_pos hle]
    rfl
  · intro questions hlt
    rw [resolveCall, hends.run_after, if_neg (Nat.not_le.mpr hlt)]
    rfl
  · exact fun _ => nofun

theorem out_collect_cons (c : Cancellation) (found : List TypeRef) (call : CallReference)
    (rest : List CallReference) : (r.collect c found (call :: rest)).out =
      onResult (r.resolveCall c call).out fun refs state =>
        let more := (r.collect state.2 (refs.foldl (addDistinct id) found) rest).out
        (more.1, state.1 ++ more.2.1, more.2.2) := by
  rw [collect]
  dsimp only
  rcases r.resolveCall c call with ⟨error | refs, diagnostics, left⟩
  · rfl
  · rfl

theorem polls_collect (found : List TypeRef) (calls : List CallReference) :
    Polls Prod.mk fun c => (r.collect c found calls).out := by
  induction calls generalizing found with
  | nil => exact .nothing [] nofun
  | cons call rest ih =>
    simp only [out_collect_cons]
    refine (r.polls_resolveCall call).onResult fun refs reported => ?_
    exact (ih _).thenNothing (fun more => (more.1, reported ++ more.2.1, more.2.2)) (fun _ => Iff.rfl)
      fun result diagnostics => ⟨result, reported ++ diagnostics, fun _ => rfl⟩

/-- **Resolving call references** asks before every step of every walk. -/
theorem polls_resolve (calls : List CallReference) : Polls Prod.mk fun c => (r.resolve c calls).out :=
  (r.polls_collect [] calls).map sortBySpelling

end Resolver

end JobClosure
