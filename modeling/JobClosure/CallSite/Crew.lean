import JobClosure.CallSite.Scan

/-!
# Scanning modules side by side

Modules can be scanned at the same time, each by a worker of its own. A worker scans the types of its module one
after the other. All workers look interfaces up in one memory and fill it, so what a worker finds in the memory
depends on the others. A schedule says whose step comes next.

An error stops the worker that meets it and no other. When all are done, the finds are put together in the order
of the modules, and the first module with an error decides.
-/

namespace JobClosure

/-- The scan of one module on its way. -/
inductive Worker
  /-- What was found so far, and the types that are left. -/
  | scanning (found : ScanResult) (left : List TypeDef)
  | stopped (error : Error)
  deriving Repr, Inhabited

namespace Worker

def isDone : Worker → Bool
  | .scanning _ [] | .stopped _ => true
  | .scanning _ (_ :: _) => false

/-- The finds of a module once its worker is done. -/
def result : Worker → Except Error ScanResult
  | .scanning found _ => .ok found.dedupeCalls
  | .stopped error => .error error

end Worker

/-- The workers of a list of modules, in its order, with the memory that they share. -/
structure Crew where
  workers : List Worker
  memo : Index.Memo := []
  deriving Repr

namespace Scanner

/-- What is remembered of methods of a type that are scanned in order, up to one that stops the scan. -/
def memoAfter (s : Scanner) (type : TypeDef) (memo : Index.Memo) : List Method → Index.Memo
  | [] => memo
  | method :: rest =>
    match s.scanMethod type memo method with
    | .ok (_, memo) => s.memoAfter type memo rest
    | .error _ => memo

/-- One step of a worker: the next type of its module is scanned. -/
def advance (s : Scanner) (memo : Index.Memo) : Worker → Worker × Index.Memo
  | .scanning found (type :: left) =>
    match s.scanType memo type with
    | .ok (more, memo) => (.scanning (found ++ more) left, memo)
    | .error error => (.stopped error, s.memoAfter type memo type.methods)
  | worker => (worker, memo)

end Scanner

namespace Crew

/-- A worker for every module. Nothing is remembered yet. -/
def ofModules (s : Scanner) (modules : List Module) : Crew where
  workers := modules.map fun m => .scanning {} (s.index.typesOf m)

/-- The step of one worker, if there is one at this position. -/
def step (s : Scanner) (crew : Crew) (position : Nat) : Crew :=
  match crew.workers[position]? with
  | none => crew
  | some worker =>
    let (next, memo) := s.advance crew.memo worker
    ⟨crew.workers.set position next, memo⟩

/-- The steps of a schedule: positions of workers, in the order of their steps. -/
def run (s : Scanner) (crew : Crew) (schedule : List Nat) : Crew := schedule.foldl (step s) crew

def isDone (crew : Crew) : Bool := crew.workers.all (·.isDone)

/-- The finds of all modules, in their order. Call references are kept once over all modules. -/
def merge (crew : Crew) : Except Error ScanResult := do
  let finds ← crew.workers.mapM (·.result)
  .ok (finds.foldl (· ++ ·) ({} : ScanResult)).dedupeCalls

end Crew

end JobClosure
