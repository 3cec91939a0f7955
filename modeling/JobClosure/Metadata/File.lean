import JobClosure.FileTree.Basic
import JobClosure.Metadata.Document
import JobClosure.Metadata.Symbols
import JobClosure.Metadata.Written

/-!
# Modules in files

A module document has a companion, the symbol document beside it, which may be missing. Reading wants both
to be in order; writing writes the module document first and the symbols after it.
-/

namespace JobClosure

namespace FileTree

/-- The text of a file, with unified line ends. -/
def readText (tree : FileTree) (path : Path) : Except Error String := do
  let bytes ← (tree.readBytes path).mapError .storage
  let text ← (Text.decode bytes).mapError .encoding
  .ok (String.ofList (Text.unifyLineEnds text.toList))

/-- Turns every error that is no load error into one, with the error as its cause. -/
def asLoad (wrap : Error → Error) (result : Except Error α) : Except Error α :=
  result.mapError fun error => if error.isLoad then error else wrap error

/-- The source locations of the module at `path`: none if there is no symbol document. -/
def readSymbols (tree : FileTree) (path : Path) : Except Error Symbols := do
  let symbols ← path.symbols.mapError .storage
  if ← (tree.contains symbols).mapError .storage then
    (tree.readText symbols >>= Symbols.ofDocument).mapError (.cannotParseSymbols symbols)
  else .ok []

/-- Reads a module and its symbols. A file that is not UTF-8 is reported as such. -/
def readModule (tree : FileTree) (path : Path) : Except Error Module := do
  let text ← (tree.readText path).mapError fun
    | .storage .nullCharacter => .storage .nullCharacter
    | .storage fault => .cannotOpen path fault
    | error => error
  let m ← asLoad (.cannotParse path) (Module.ofDocument (some path) text)
  .ok { m with symbols := ← tree.readSymbols path }

/-- A module that can be read stands in the tree as a file. -/
theorem mem_entries_of_readModule {tree : FileTree} {path : Path} {m : Module}
    (h : tree.readModule path = .ok m) : ∃ content, (path.resolve.parts, Entry.file content) ∈ tree.entries := by
  cases hb : tree.readBytes path with
  | ok content => exact ⟨content, mem_entries_of_readBytes hb⟩
  | error fault =>
    rw [readModule, readText, hb] at h
    exact nomatch h

end FileTree

namespace Module

/-- Writes a module to `path`, and its symbols beside it if they are wanted. The tree after a failure
holds what was written before it. -/
def writeTo (m : Module) (path : Path) (withSymbols : Bool) (tree : FileTree) : FileTree × Except Error Path :=
  match tree.writeText path m.document with
  | .error fault => (tree, .error (.storage fault))
  | .ok tree =>
    if withSymbols then
      match path.symbols >>= fun symbols => tree.writeText symbols (Symbols.document m.symbols) with
      | .error fault => (tree, .error (.storage fault))
      | .ok tree => (tree, .ok path)
    else (tree, .ok path)

/-- Writes a module to the file that it belongs to. -/
def write (m : Module) (withSymbols : Bool) (tree : FileTree) : FileTree × Except Error Path :=
  match m.path with
  | none => (tree, .error (.noPath m.name))
  | some path => m.writeTo path withSymbols tree

end Module

end JobClosure
