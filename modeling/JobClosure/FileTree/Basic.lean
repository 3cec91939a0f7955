import JobClosure.FileTree.Path
import JobClosure.Text.Encoding
import JobClosure.Text.Quoted

/-!
# The file tree

Modules live in a tree of files. The tree is a value: reading looks a path up, writing yields a new tree
in which exactly one file differs. Both name the reason when they fail.

A path is followed component by component, so that every component before the last must be a directory.
Names and paths have a greatest length. Asking what stands at a path fails only where one is longer than
that: nothing stands at a path that cannot be followed for another reason.
-/

namespace JobClosure

/-- What stands at a place of the tree. -/
inductive Entry
  | file (content : ByteArray)
  | directory

/-- Whether an entry is a directory. -/
def Entry.isDirectory : Entry → Bool
  | .directory => true
  | .file _ => false

/-- Files are equal if their bytes are. -/
instance : DecidableEq Entry
  | .file a, .file b =>
    if h : a.data = b.data then .isTrue (congrArg Entry.file (ByteArray.ext h))
    else .isFalse fun heq => h (congrArg ByteArray.data (Entry.file.inj heq))
  | .directory, .directory => .isTrue rfl
  | .file _, .directory => .isFalse nofun
  | .directory, .file _ => .isFalse nofun

/-- The files and directories below the root, each with its components. -/
structure FileTree where
  entries : List (List String × Entry) := []
  deriving DecidableEq, Inhabited

/-- Why a file cannot be read or written. -/
inductive StorageFault
  | notFound (path : Path)
  | notADirectory (path : Path)
  | isADirectory (path : Path)
  | alreadyExists (path : Path)
  | nameTooLong (path : Path)
  | noSpace
  | nullCharacter
  /-- The root, where a file name is wanted. -/
  | noName (path : Path)
  deriving DecidableEq, Repr

def StorageFault.message : StorageFault → String
  | .notFound path => s!"[Errno 2] No such file or directory: {Text.quoted path.text}"
  | .notADirectory path => s!"[Errno 20] Not a directory: {Text.quoted path.text}"
  | .isADirectory path => s!"[Errno 21] Is a directory: {Text.quoted path.text}"
  | .alreadyExists path => s!"[Errno 17] File exists: {Text.quoted path.text}"
  | .nameTooLong path => s!"[Errno 36] File name too long: {Text.quoted path.text}"
  | .noSpace => "[Errno 28] No space left on device"
  | .nullCharacter => "embedded null byte"
  | .noName path => s!"PosixPath({Text.quoted path.text}) has an empty name"

/-- The path to the place that a path leads to. -/
def Path.resolved (path : Path) : Except StorageFault Path :=
  if path.hasNull then .error .nullCharacter else .ok path.resolve

/-- The symbol document that belongs to a module document. -/
def Path.symbols (path : Path) : Except StorageFault Path :=
  match path.symbols? with
  | some symbols => .ok symbols
  | none => .error (.noName path)

namespace FileTree

/-- What stands at a place. The root is a directory. -/
def entry? (tree : FileTree) (place : List String) : Option Entry :=
  if place.isEmpty then some .directory else tree.entries.lookup place

/-- How many bytes a name may have. -/
def nameLimit : Nat := 255

/-- How many bytes a path may have. -/
def pathLimit : Nat := 4095

/-- The place that `parts` lead to from `place`, if every directory on the way exists. -/
def follow (tree : FileTree) (path : Path) (place : List String) :
    List String → Except StorageFault (List String)
  | [] => .ok place
  | part :: rest =>
    match tree.entry? place with
    | some .directory =>
      if nameLimit < part.utf8ByteSize then .error (.nameTooLong path)
      else follow tree path (Path.resolveStep place part) rest
    | some (.file _) => .error (.notADirectory path)
    | none => .error (.notFound path)

/-- The place that a path leads to. Nothing need stand there. -/
def locate (tree : FileTree) (path : Path) : Except StorageFault (List String) :=
  if path.hasNull then .error .nullCharacter
  else if pathLimit < path.text.utf8ByteSize then .error (.nameTooLong path)
  else tree.follow path [] path.parts

/-- Directories on the way do not change where a path leads. -/
theorem follow_eq_ok {tree : FileTree} {path : Path} {place parts result : List String}
    (h : tree.follow path place parts = .ok result) : result = parts.foldl Path.resolveStep place := by
  induction parts generalizing place with
  | nil => exact (Except.ok.inj h).symm
  | cons part rest ih =>
    unfold follow at h
    split at h
    · split at h
      · cases h
      · exact ih h
    · cases h
    · cases h

/-- A path leads to the place that it resolves to, if it leads anywhere. -/
theorem locate_eq_ok {tree : FileTree} {path : Path} {place : List String}
    (h : tree.locate path = .ok place) : place = path.resolve.parts := by
  unfold locate at h
  split at h
  · cases h
  · split at h
    · cases h
    · exact follow_eq_ok h

/-- What a path leads to, if anything. -/
def find? (tree : FileTree) (path : Path) : Except StorageFault (Option Entry) :=
  match tree.locate path with
  | .ok place => .ok (tree.entry? place)
  | .error (.nameTooLong path) => .error (.nameTooLong path)
  | .error _ => .ok none

/-- Whether a path leads to something. -/
def contains (tree : FileTree) (path : Path) : Except StorageFault Bool :=
  (tree.find? path).map Option.isSome

/-- Whether a path leads to a directory. -/
def isDirectory (tree : FileTree) (path : Path) : Except StorageFault Bool :=
  (tree.find? path).map (·.any Entry.isDirectory)

/-- Whether a path leads to a file. -/
def isFile (tree : FileTree) (path : Path) : Except StorageFault Bool :=
  (tree.find? path).map (·.any (!·.isDirectory))

/-- The bytes of the file that a path leads to. -/
def readBytes (tree : FileTree) (path : Path) : Except StorageFault ByteArray := do
  match tree.entry? (← tree.locate path) with
  | some (.file content) => .ok content
  | some .directory => .error (.isADirectory path)
  | none => .error (.notFound path)

theorem mem_of_lookup {place : List String} {entry : Entry} {entries : List (List String × Entry)}
    (h : entries.lookup place = some entry) : (place, entry) ∈ entries := by
  induction entries with
  | nil => simp at h
  | cons head rest ih =>
    obtain ⟨other, found⟩ := head
    rw [List.lookup_cons] at h
    split at h
    · rename_i he
      rw [← eq_of_beq he, Option.some.inj h]
      exact List.mem_cons_self
    · exact List.mem_cons_of_mem _ (ih h)

/-- What can be read stands in the tree at the place that the path resolves to. -/
theorem mem_entries_of_readBytes {tree : FileTree} {path : Path} {content : ByteArray}
    (h : tree.readBytes path = .ok content) : (path.resolve.parts, Entry.file content) ∈ tree.entries := by
  unfold readBytes at h
  cases hl : tree.locate path with
  | error fault => simp [hl, bind, Except.bind] at h
  | ok place =>
    simp only [hl, bind, Except.bind] at h
    split at h
    · rename_i found he
      rw [← locate_eq_ok hl, ← Except.ok.inj h]
      unfold entry? at he
      split at he
      · cases he
      · exact mem_of_lookup he
    · cases h
    · cases h

/-- The tree with `entry` at a place. -/
def set (tree : FileTree) (place : List String) (entry : Entry) : FileTree :=
  if (tree.entries.lookup place).isSome then
    ⟨tree.entries.map fun (other, old) => (other, if other == place then entry else old)⟩
  else ⟨tree.entries ++ [(place, entry)]⟩

/-- The tree with `content` in the file that a path leads to. The file may be new, its directory not. -/
def writeBytes (tree : FileTree) (path : Path) (content : ByteArray) : Except StorageFault FileTree := do
  let place ← tree.locate path
  match tree.entry? place with
  | some .directory => .error (.isADirectory path)
  | _ => .ok (tree.set place (.file content))

/-- The tree with a text written to a file, in UTF-8. -/
def writeText (tree : FileTree) (path : Path) (text : String) : Except StorageFault FileTree :=
  tree.writeBytes path text.toUTF8

/-- The names of what a directory holds, sorted. -/
def names (tree : FileTree) (path : Path) : List String :=
  match tree.locate path with
  | .ok place =>
    let inside := tree.entries.filterMap fun (other, _) =>
      if other.dropLast == place && !other.isEmpty then other.getLast? else none
    inside.mergeSort (fun a b => decide (a ≤ b))
  | .error _ => []

/-- The tree with a directory where a path leads. One that is there already stays. -/
def makeDirectory (tree : FileTree) (path : Path) : Except StorageFault FileTree := do
  let place ← tree.locate path
  match tree.entry? place with
  | some .directory => .ok tree
  | some (.file _) => .error (.alreadyExists path)
  | none => .ok (tree.set place .directory)

/-- The same, where the directories on the way are made as well. A double dot takes back the way but not
the directory that was made for it. The tree after a failure holds what was made before it. -/
def makeDirectories (tree : FileTree) (path : Path) : FileTree × Except StorageFault Unit :=
  match tree.makeDirectory path with
  | .ok tree => (tree, .ok ())
  | .error (.notFound missing) =>
    if _h : path.parts = [] then (tree, .error (.notFound missing))
    else
      match tree.makeDirectories path.parent with
      | (tree, .error fault) => (tree, .error fault)
      | (tree, .ok ()) =>
        match tree.makeDirectory path with
        | .ok tree => (tree, .ok ())
        | .error fault => (tree, .error fault)
  | .error fault => (tree, .error fault)
termination_by path.parts.length
decreasing_by
  have := List.length_pos_iff.mpr _h
  simp only [Path.parent, List.length_dropLast]
  omega

/-- The tree with a directory or a file put where a path leads, and directories on the way to it. -/
def put (tree : FileTree) (path : Path) : Entry → FileTree × Except StorageFault Unit
  | .directory => tree.makeDirectories path
  | .file content =>
    match tree.makeDirectories path.parent with
    | (tree, .error fault) => (tree, .error fault)
    | (tree, .ok ()) =>
      match tree.writeBytes path content with
      | .ok tree => (tree, .ok ())
      | .error fault => (tree, .error fault)

/-- The tree without what a path leads to and everything below it. -/
def delete (tree : FileTree) (path : Path) : FileTree :=
  let place := path.resolve.parts
  ⟨tree.entries.filter fun (other, _) => !place.isPrefixOf other⟩

/-- Whether a path leads to a module document. -/
def isModuleFile (tree : FileTree) (path : Path) : Except StorageFault Bool := do
  .ok ((← tree.isFile path) && path.suffix == Path.moduleSuffix)

end FileTree

end JobClosure
