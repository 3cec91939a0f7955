import JobClosure.Session

/-!
# Requests

A request loads modules, resolves the job calls in them and, if it names a target, adds the closed types to
that module. It opens a store of its own, which is closed however the request ends.
-/

namespace JobClosure

/-- What to load, what to look for and where to put the result. -/
structure Request where
  /-- Modules that must be loaded. -/
  paths : List Path := []
  /-- Parts of the names of modules on the search paths. -/
  hints : List String := []
  /-- Load the modules that match no hint instead of those that match one. -/
  exclude : Bool := false
  searchPaths : List Path := []
  followReferences : Bool := false
  /-- The module that the closed types are added to. -/
  target : Option Path := none
  group : String
  analysis : AnalysisOptions := {}

/-- What a request that succeeds answers. -/
structure Outcome where
  instantiations : List TypeRef
  synthesized : Option TypeDef
  diagnostics : List Diagnostic

namespace Request

/-- The group of closed types unless another one is asked for. -/
def defaultGroup : String := "Generated.JobInstances"

/-- Loads modules that must be there, until one fails. -/
def loadPaths (store : Store) : List Path → Except Error Unit × Store
  | [] => (.ok (), store)
  | path :: rest =>
    match store.add path with
    | (.error error, store) => (.error error, store)
    | (.ok _, store) => loadPaths store rest

/-- Loads the modules of a request. Without hints nothing is selected, unless to exclude none. -/
def load (r : Request) (store : Store) : Except Error Unit × Store :=
  match loadPaths store r.paths with
  | (.error error, store) => (.error error, store)
  | (.ok (), store) =>
    if r.hints.isEmpty && !r.exclude then (.ok (), store)
    else
      let (result, store) := store.select r.hints r.exclude
      (result.map fun _ => (), store)

/-- Adds instantiations to the target, if there is one. Without instantiations there is nothing to add. -/
def addToTarget (r : Request) (s : Session) (refs : List TypeRef) : Except Error (Option TypeDef) × Session :=
  match r.target with
  | none => (.ok none, s)
  | some path =>
    if refs.isEmpty then (.ok none, { s with store := s.store.note [.nothingToAdd path] })
    else
      let (result, s) := s.addTypes path r.group (refs.map .ref)
      (result.map some, s)

/-- Resolves the job calls of loaded modules and adds the result to the target. -/
def analyse (r : Request) (s : Session) : Except Error Outcome × Session :=
  match s.resolve with
  | (.error error, s) => (.error error, s)
  | (.ok refs, s) =>
    match r.addToTarget s refs with
    | (.error error, s) => (.error error, s)
    | (.ok synthesized, s) => (.ok ⟨refs, synthesized, s.store.diagnostics⟩, s)

/-- The store that a request starts with. -/
def store (r : Request) (files : FileTree) : Store where
  files := files
  searchPaths := r.searchPaths
  followReferences := r.followReferences

/-- Runs a request. The store that comes back is closed; it holds the files as they are afterwards. -/
def run (r : Request) (files : FileTree) : Except Error Outcome × Store :=
  match r.load (r.store files) with
  | (.error error, store) => (.error error, store.close)
  | (.ok (), store) =>
    let (result, s) := r.analyse (.ofStore r.analysis store)
    (result, s.close.store)

end Request

end JobClosure
