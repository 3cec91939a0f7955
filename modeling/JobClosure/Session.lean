import JobClosure.CallSite.Graph
import JobClosure.CallSite.Scan
import JobClosure.Instantiation.Resolve
import JobClosure.Store.Loading
import JobClosure.Store.Saving

/-!
# Sessions

A session answers questions about the modules of a store. The index and the scan are made when they are
first needed and kept, so later answers do not see what is added to a module in between. A scan that fails
is not kept. Diagnostics of the scan are reported with it, those of resolving every time.
-/

namespace JobClosure

/-- What an analysis depends on besides the modules. -/
structure AnalysisOptions where
  marker : String := Index.defaultMarker
  cancellation : Cancellation := .never
  deriving Repr

/-- A store with what is known about its modules. -/
structure Session where
  store : Store
  marker : String := Index.defaultMarker
  cancellation : Cancellation := .never
  knownIndex : Option Index := none
  knownScan : Option ScanResult := none

namespace Session

/-- A session about the modules of a store. -/
def ofStore (options : AnalysisOptions) (store : Store) : Session where
  store := store
  marker := options.marker
  cancellation := options.cancellation

/-- A session about a store that has just been loaded. If loading failed the store is closed. -/
def ofLoaded (options : AnalysisOptions) : Except Error α × Store → Except (Error × Store) Session
  | (.ok _, store) => .ok (ofStore options store)
  | (.error error, store) => .error (error, store.close)

/-- A session about a single module and what it refers to. -/
def ofPath (options : AnalysisOptions) (store : Store) (path : Path) : Except (Error × Store) Session :=
  ofLoaded options (store.add path)

/-- A session about the modules that match some hints. -/
def ofHints (options : AnalysisOptions) (store : Store) (hints : List String) (exclude : Bool) :
    Except (Error × Store) Session :=
  ofLoaded options (store.select hints exclude)

def modules (s : Session) : List Module := s.store.modules

def index (s : Session) : Index × Session :=
  match s.knownIndex with
  | some ix => (ix, s)
  | none =>
    let (ix, log) := Index.build s.modules
    (ix, { s with knownIndex := some ix, store := s.store.note log })

def scan (s : Session) : Except Error ScanResult × Session :=
  match s.knownScan with
  | some found => (.ok found, s)
  | none =>
    let (ix, s) := s.index
    match Scanner.scanModules ⟨ix, s.marker⟩ ⟨[], s.cancellation⟩ s.modules with
    | (.error error, state) => (.error error, { s with cancellation := state.cancellation })
    | (.ok found, state) =>
      (.ok found, { s with
        cancellation := state.cancellation
        knownScan := some found
        store := s.store.report found.diagnostics })

/-- The job calls with open parameters. -/
def jobCalls (s : Session) : Except Error (List CallReference) × Session :=
  let (result, s) := s.scan
  (result.map (·.calls), s)

def callGraph (s : Session) : Except Error CallGraph × Session :=
  let (result, s) := s.scan
  (result.map fun found => CallGraph.ofSites found.callSites, s)

/-- The calls that supply generic arguments, by callee. -/
def genericCalls (s : Session) : Except Error (List (MethodId × List CallSite)) × Session :=
  let (result, s) := s.callGraph
  (result.map (·.lookupTable true), s)

/-- All methods, the first for every identity. -/
def methods (s : Session) : List Method × Session :=
  let (ix, s) := s.index
  (ix.methodTable, s)

/-- The method of a name on a type, with given parameters if any are given. -/
def definition (s : Session) (identity : Identity) (name : String) (parameters : Option (List String)) :
    Except Error Method × Session :=
  let (ix, s) := s.index
  ((ix.findMethod identity name parameters none).mapError .notFound, s)

/-- The closed instantiations of all job calls. -/
def resolve (s : Session) : Except Error (List TypeRef) × Session :=
  let (ix, s) := s.index
  match s.scan with
  | (.error error, s) => (.error error, s)
  | (.ok found, s) =>
    let resolution := Resolver.resolve ⟨ix, CallGraph.ofSites found.callSites⟩ s.cancellation found.calls
    (resolution.result,
      { s with cancellation := resolution.cancellation, store := s.store.report resolution.diagnostics })

/-- Loads one more module, which must be possible. -/
def addModule (s : Session) (path : Path) : Except Error Nat × Session :=
  let (result, store) := s.store.add path
  (result, { s with store })

/-- Synthesises a group of closed types in the module at a path and writes it. -/
def addTypes (s : Session) (path : Path) (group : String) (items : List Instantiation) :
    Except Error TypeDef × Session :=
  match s.addModule path with
  | (.error error, s) => (.error error, s)
  | (.ok handle, s) =>
    let (ix, s) := s.index
    let (result, store) := s.store.synthesize handle (some ix) group items
    (result, { s with store })

def close (s : Session) : Session := { s with store := s.store.close }

end Session

end JobClosure
