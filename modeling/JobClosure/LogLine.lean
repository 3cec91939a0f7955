import JobClosure.FileTree.Path

/-!
# The log

What is said about the work besides its results, in the order in which it happens.
-/

namespace JobClosure

inductive LogLine
  /-- A type is defined again; the definition of module `kept` stays. -/
  | duplicateType (type kept other : String)
  | skippedModule (path : Path) (message : String)
  | nothingToAdd (path : Path)
  deriving DecidableEq, Repr

/-- An entry with its level. -/
def LogLine.text : LogLine → String
  | .duplicateType type kept other =>
    s!"WARNING: Type {type} defined in both {kept} and {other}; keeping the first"
  | .skippedModule path message => s!"WARNING: Skipping module {path.text}: {message}"
  | .nothingToAdd path => s!"INFO: No instantiations to add to {path.text}"

end JobClosure
