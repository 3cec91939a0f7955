import JobClosure.CallSite.Crew
import JobClosure.Proofs.CallSite.Types
import JobClosure.Proofs.CallSite.Workshop
import Mathlib

/-!
# Workers do not get into each other's way

What a worker finds in the shared memory depends on the schedule, but whatever is remembered is right
(`Index.Memo.Sound`), and a type that is scanned with a right memory contributes what it contributes alone. So
it is settled from the start what every worker will have found in the end (`Worker.outlook`): no step of any
worker changes it. In the end the finds are those of a scan of one module after the other
(`merge_run_ofModules`), however the steps were interleaved.
-/

namespace JobClosure

open Index (Memo)

theorem ScanResult.empty_append (r : ScanResult) : {} ++ r = r := rfl

theorem ScanResult.append_empty (r : ScanResult) : r ++ {} = r := by
  show ScanResult.mk (r.calls ++ []) (r.callSites ++ []) (r.diagnostics ++ []) = r
  rw [List.append_nil, List.append_nil, List.append_nil]

/-- The number of types that a worker has yet to scan. -/
def Worker.toDo : Worker → Nat
  | .scanning _ left => left.length
  | .stopped _ => 0

/-- What a worker will have found in the end, if every type contributes what it contributes alone. -/
def Worker.outlook (s : Scanner) : Worker → Except Error ScanResult
  | .scanning found left => (fun finds => found ++ Scanner.together finds) <$> left.mapM s.findsIn
  | .stopped error => .error error

namespace Scanner

variable {s : Scanner} {memo : Memo}

/-- A scan that stops has remembered nothing wrong. -/
theorem sound_memoAfter (hmemo : memo.Sound s.index) (type : TypeDef) (methods : List Method) :
    (s.memoAfter type memo methods).Sound s.index := by
  induction methods generalizing memo with
  | nil => exact hmemo
  | cons method rest ih =>
    have hmethod := (Agrees.refl s).scanMethod hmemo hmemo (namesInBody_anyName type method)
    rw [memoAfter]
    generalize s.scanMethod type memo method = scanned at hmethod ⊢
    cases hmethod with
    | failed error => exact hmemo
    | found h => exact ih h.left

/-- **One step of a worker** does not change what it will have found, and keeps the memory right. -/
theorem advance_spec (hmemo : memo.Sound s.index) (worker : Worker) :
    (s.advance memo worker).1.outlook s = worker.outlook s ∧ (s.advance memo worker).2.Sound s.index := by
  match worker with
  | .stopped error => exact ⟨rfl, hmemo⟩
  | .scanning found [] => exact ⟨rfl, hmemo⟩
  | .scanning found (type :: left) =>
    have hstopped := sound_memoAfter hmemo type type.methods
    have htype := (Agrees.refl s).scanMethods hmemo (Memo.sound_nil _) (namesInBodies_anyName type)
    rw [advance, Worker.outlook, List.mapM_cons, findsIn, scanType, scanType]
    generalize s.scanMethods type memo type.methods = scanned at htype ⊢
    generalize s.scanMethods type [] type.methods = alone at htype ⊢
    cases htype with
    | failed error => exact ⟨rfl, hstopped⟩
    | @found x y htype =>
      refine ⟨?_, htype.left⟩
      show (fun finds => found ++ x.1 ++ together finds) <$> left.mapM s.findsIn = _
      cases left.mapM s.findsIn with
      | error error => rfl
      | ok finds =>
        show Except.ok (found ++ x.1 ++ together finds) = Except.ok (found ++ together (y.1 :: finds))
        rw [ScanResult.append_assoc, htype.answer]
        rfl

end Scanner

/-- Once a worker is done it has found what it was to find. -/
theorem Worker.result_eq {worker : Worker} (s : Scanner) (hdone : worker.isDone = true) :
    worker.result = (worker.outlook s).map ScanResult.dedupeCalls := by
  match worker with
  | .stopped error => rfl
  | .scanning found [] =>
    show _ = Except.ok (found ++ {}).dedupeCalls
    rw [ScanResult.append_empty]
    rfl

namespace Crew

variable {s : Scanner} {crew : Crew} {outlooks : List (Except Error ScanResult)}

/-- The memory is right, and this is what the workers will have found in the end. -/
structure Expects (s : Scanner) (crew : Crew) (outlooks : List (Except Error ScanResult)) : Prop where
  workers : crew.workers.map (Worker.outlook s) = outlooks
  memo : crew.memo.Sound s.index

theorem Expects.step (h : crew.Expects s outlooks) (position : Nat) : (crew.step s position).Expects s outlooks := by
  unfold Crew.step
  split
  · exact h
  · rename_i worker hworker
    obtain ⟨houtlook, hmemo⟩ := Scanner.advance_spec h.memo worker
    refine ⟨?_, hmemo⟩
    obtain ⟨hlength, hget⟩ := List.getElem?_eq_some_iff.mp hworker
    -- The outlook that is set is the one that stands there.
    rw [List.map_set, houtlook, ← hget, ← h.workers]
    apply List.ext_getElem?
    intro other
    rcases eq_or_ne position other with rfl | hother
    · rw [List.getElem?_set_self (by rwa [List.length_map]), List.getElem?_map, List.getElem?_eq_getElem hlength]
      rfl
    · rw [List.getElem?_set_ne hother]

/-- **No schedule changes what is found in the end.** -/
theorem Expects.run (h : crew.Expects s outlooks) (schedule : List Nat) : (crew.run s schedule).Expects s outlooks := by
  induction schedule generalizing crew with
  | nil => exact h
  | cons position rest ih => exact ih (h.step position)

/-- What a list of modules promises: every module contributes what it contributes alone. -/
theorem expects_ofModules (s : Scanner) (modules : List Module) :
    (ofModules s modules).Expects s (modules.map fun m => Scanner.together <$> (s.index.typesOf m).mapM s.findsIn) := by
  refine ⟨?_, Memo.sound_nil s.index⟩
  rw [ofModules, List.map_map]
  refine List.map_congr_left fun m _ => ?_
  show (fun finds => {} ++ Scanner.together finds) <$> (s.index.typesOf m).mapM s.findsIn = _
  rfl

/-- The finds of workers that are done, from what they were to find. -/
theorem Expects.mapM_result (h : crew.Expects s outlooks) (hdone : crew.isDone = true) :
    crew.workers.mapM (·.result) = outlooks.mapM (Except.map ScanResult.dedupeCalls) := by
  rw [← h.workers]
  refine mapM_congr_of_forall₂ ?_
  rw [List.forall₂_map_right_iff, List.forall₂_same]
  intro worker hworker
  exact worker.result_eq s (List.all_eq_true.mp hdone worker hworker)

theorem foldl_append_eq_together (found : ScanResult) (finds : List ScanResult) :
    finds.foldl (· ++ ·) found = found ++ Scanner.together finds := by
  induction finds generalizing found with
  | nil => exact (ScanResult.append_empty found).symm
  | cons first rest ih =>
    rw [List.foldl_cons, ih, ScanResult.append_assoc]
    rfl

/-- **Modules that are scanned side by side give what they give one after the other**, in whatever order the steps
of their workers come: the same calls, call sites and diagnostics, or the same error. -/
theorem merge_run_ofModules (s : Scanner) (modules : List Module) (schedule : List Nat)
    (hdone : ((ofModules s modules).run s schedule).isDone = true) :
    ((ofModules s modules).run s schedule).merge = (s.scanModules {} modules).1 := by
  have hfinds := ((expects_ofModules s modules).run schedule).mapM_result hdone
  have halone : (modules.map fun m => Scanner.together <$> (s.index.typesOf m).mapM s.findsIn).mapM
      (Except.map ScanResult.dedupeCalls) = modules.mapM fun m => (s.scanModule {} m).1 := by
    refine mapM_congr_of_forall₂ ?_
    rw [List.forall₂_map_left_iff, List.forall₂_same]
    intro m _
    rw [Scanner.scanModule, ← Scanner.scanTypes_eq (ScanState.ready_start s.index)]
  have hmodules := Scanner.scanEach_eq s (ScanState.ready_start s.index) modules
  rw [merge, hfinds, halone]
  show _ = Except.map ScanResult.dedupeCalls (s.scanEach {} modules).1
  rw [hmodules]
  cases modules.mapM fun m => (s.scanModule {} m).1 with
  | error error => rfl
  | ok finds =>
    show Except.ok (finds.foldl (· ++ ·) ({} : ScanResult)).dedupeCalls = Except.ok (Scanner.together finds).dedupeCalls
    rw [foldl_append_eq_together, ScanResult.empty_append]

namespace SideBySide

open Workshop (declaring shop)

/-- All methods of both modules make a job. -/
def left : Module := shop "Left" [("Work", [Workshop.run])]

def right : Module where
  name := "Right"
  types := [declaring "Right" "Other" [Workshop.run], declaring "Right" "Last" [Workshop.run]]

def scanner : Scanner := ⟨Index.ofModules [left, right], "job"⟩

theorem isDone_run : ((ofModules scanner [left, right]).run scanner [0, 1, 0, 0, 1]).isDone = true := by cbv

/-- The second worker is the first to ask for the interfaces of the job. -/
theorem memo_run : ((ofModules scanner [left, right]).run scanner [0, 1]).memo.map (·.1) = ["Job"] := by cbv

/-- Then the first worker finds them in the memory, and the finds are those of one module after the other. -/
theorem merge_run : ((ofModules scanner [left, right]).run scanner [0, 1]).memo.map (·.1) = ["Job"] ∧
    ((ofModules scanner [left, right]).run scanner [0, 1, 0, 0, 1]).merge
      = (scanner.scanModules {} [left, right]).1 :=
  ⟨memo_run, merge_run_ofModules scanner [left, right] [0, 1, 0, 0, 1] isDone_run⟩

end SideBySide

/-! ## Every schedule can be carried on to the end -/

theorem advance_toDo (s : Scanner) (memo : Memo) {worker : Worker} (hdone : worker.isDone = false) :
    (s.advance memo worker).1.toDo < worker.toDo := by
  match worker with
  | .stopped error => exact nomatch hdone
  | .scanning found [] => exact nomatch hdone
  | .scanning found (type :: left) =>
    rw [Scanner.advance]
    split
    · exact Nat.lt_succ_self left.length
    · exact Nat.succ_pos left.length

/-- The types that are still to be scanned. -/
def toDo (crew : Crew) : Nat := (crew.workers.map Worker.toDo).sum

/-- As long as some worker is not done, its step leaves less to do. -/
theorem exists_step_toDo_lt (s : Scanner) (hdone : crew.isDone = false) :
    ∃ position, (crew.step s position).toDo < crew.toDo := by
  obtain ⟨worker, hworker, hopen⟩ := List.all_eq_false.mp hdone
  obtain ⟨before, after, hworkers⟩ := List.mem_iff_append.mp hworker
  refine ⟨before.length, ?_⟩
  have hat : crew.workers[before.length]? = some worker := by
    rw [hworkers, List.getElem?_append_right Nat.le.refl, Nat.sub_self]
    rfl
  have hless := advance_toDo s crew.memo (Bool.not_eq_true _ ▸ hopen)
  rw [step, hat, toDo, toDo]
  dsimp only
  rw [hworkers, List.set_append_right _ _ Nat.le.refl, Nat.sub_self, List.set_cons_zero]
  simp only [List.map_append, List.map_cons, List.sum_append, List.sum_cons]
  omega

/-- However far the work has come, the workers can finish it. -/
theorem exists_isDone_run (s : Scanner) (crew : Crew) : ∃ schedule, (crew.run s schedule).isDone = true := by
  induction hn : crew.toDo using Nat.strongRecOn generalizing crew with
  | ind n ih =>
    cases hdone : crew.isDone with
    | true => exact ⟨[], hdone⟩
    | false =>
      obtain ⟨position, hless⟩ := exists_step_toDo_lt s hdone
      obtain ⟨rest, hrest⟩ := ih _ (hn ▸ hless) (crew.step s position) rfl
      exact ⟨position :: rest, hrest⟩

end Crew

end JobClosure
