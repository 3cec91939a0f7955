import JobClosure.FileTree.Basic

/-!
# Finding module files

Module files are looked for in a list of directories, the search paths. A module name leads to the first
search path with a file of that name. A hint is any part of a file name without its suffix.
-/

namespace JobClosure

/-- Whether a word occurs in a text. -/
def occursIn (word : List Char) : List Char → Bool
  | [] => word.isEmpty
  | c :: rest => word.isPrefixOf (c :: rest) || occursIn word rest

namespace Path

/-- The path of something in a directory. -/
def child (path : Path) (name : String) : Path := { path with parts := path.parts ++ [name] }

/-- Whether a hint occurs in the file name. -/
def matchesHint (path : Path) (hints : List String) : Bool :=
  hints.any fun hint => occursIn hint.toList path.stem.toList

end Path

namespace FileTree

/-- The module files directly in a directory, sorted. What is no directory has none. -/
def moduleFilesIn (tree : FileTree) (root : Path) : Except StorageFault (List Path) := do
  if ← tree.isDirectory root then ((tree.names root).map root.child).filterM tree.isModuleFile else .ok []

/-- The module files of all search paths, one search path after the other. -/
def moduleFiles (tree : FileTree) (searchPaths : List Path) : Except StorageFault (List Path) := do
  .ok (← searchPaths.mapM tree.moduleFilesIn).flatten

/-- The file of a module name: the first search path that has one wins. -/
def findModule? (tree : FileTree) (name : String) : List Path → Except StorageFault (Option Path)
  | [] => .ok none
  | root :: rest => do
    let candidate := root.join (name ++ Path.moduleSuffix)
    if ← tree.isFile candidate then .ok (some candidate) else tree.findModule? name rest

/-- The module files whose names match some hint, or with `exclude` those that match none. -/
def selectModules (tree : FileTree) (searchPaths : List Path) (hints : List String) (exclude : Bool) :
    Except StorageFault (List Path) := do
  .ok ((← tree.moduleFiles searchPaths).filter fun path => path.matchesHint hints != exclude)

end FileTree

end JobClosure
