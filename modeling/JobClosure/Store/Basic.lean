import JobClosure.Diagnostic
import JobClosure.FileTree.Search
import JobClosure.LogLine
import JobClosure.Metadata.File

/-!
# The store of modules

A store opens modules from a tree of files, holds them, and releases them. A module is held once per
resolved path. Every module that was ever opened keeps its handle, the number of modules opened before it,
so that a released module can still be looked at.

A closed store holds nothing and opens nothing. What it reports stays readable.
-/

namespace JobClosure

/-- Modules over a tree of files. -/
structure Store where
  files : FileTree := {}
  /-- The directories in which modules are looked for. -/
  searchPaths : List Path := []
  /-- Whether the modules that a loaded module refers to are loaded as well. -/
  followReferences : Bool := false
  /-- Whether there is no space left to write to. -/
  full : Bool := false
  /-- Every module that was opened, by its handle. -/
  opened : List Module := []
  /-- The held modules in the order of loading: resolved path and handle. -/
  held : List (Path × Nat) := []
  releaseCount : Nat := 0
  closed : Bool := false
  diagnostics : List Diagnostic := []
  log : List LogLine := []
  deriving Inhabited

namespace Store

def openCount (s : Store) : Nat := s.opened.length

def module? (s : Store) (handle : Nat) : Option Module := s.opened[handle]?

def handles (s : Store) : List Nat := s.held.map (·.2)

/-- The held modules in the order of loading. -/
def modules (s : Store) : List Module := s.handles.filterMap s.module?

/-- The handle of the first held module of a name. -/
def named? (s : Store) (name : String) : Option Nat :=
  s.handles.find? fun handle => (s.module? handle).any (·.name == name)

def get? (s : Store) (name : String) : Option Module := s.modules.find? (·.name == name)

/-- The handle of the module that is held for a resolved path. -/
def handleOf? (s : Store) (place : Path) : Option Nat := s.held.lookup place

/-- Whether a module is held for a resolved path. -/
def holds (s : Store) (place : Path) : Bool := (s.handleOf? place).isSome

/-- Holds a newly opened module. -/
def hold (s : Store) (place : Path) (m : Module) : Store :=
  { s with opened := s.opened ++ [m], held := s.held ++ [(place, s.opened.length)] }

/-- Puts a changed module in place of the one with its handle. -/
def replace (s : Store) (handle : Nat) (m : Module) : Store := { s with opened := s.opened.set handle m }

def report (s : Store) (diagnostics : List Diagnostic) : Store :=
  { s with diagnostics := s.diagnostics ++ diagnostics }

def note (s : Store) (lines : List LogLine) : Store := { s with log := s.log ++ lines }

def skipped (place : Path) (error : Error) : Diagnostic where
  message := "module skipped"
  location := some ⟨place.text, none⟩
  code := some Diagnostic.skippedModule
  note := some error.message

/-- Leaves a module out: reports it and goes on. -/
def skip (s : Store) (place : Path) (error : Error) : Store :=
  (s.note [.skippedModule place error.message]).report [skipped place error]

/-- Releases a module, unless that has happened already. -/
def release (s : Store) (handle : Nat) : Store :=
  match s.module? handle with
  | none => s
  | some m =>
    if m.released then s
    else
      { s.replace handle m.release with
        releaseCount := s.releaseCount + 1
        held := s.held.filter (·.2 != handle) }

/-- Releases every held module and closes the store. -/
def close (s : Store) : Store :=
  { s.handles.foldl release s with held := [], closed := true }

end Store

end JobClosure
