/-!
# Paths

A path leads from the root of the file tree through the names of directories. Empty components and single
dots are dropped when a path is made from text; a double dot stays until the path is resolved, because it
means the parent of whatever the path before it leads to. Two slashes at the start stay as well, though they
lead to the same root as one; three or more count as one.

The suffix of a file name starts at its last dot, unless that dot is the first or the last character; the
stem is the rest of the name.
-/

namespace JobClosure

/-- A path from the root of the file tree. -/
structure Path where
  parts : List String
  /-- Whether the path is written with two slashes at its start. -/
  doubleRoot : Bool := false
  deriving DecidableEq, Repr, Inhabited

namespace Path

/-- The pieces of a text between slashes. -/
def pieces : List Char → List (List Char)
  | [] => [[]]
  | c :: rest =>
    match pieces rest with
    | piece :: more => if c == '/' then [] :: piece :: more else (c :: piece) :: more
    | [] => [[c]]

/-- The components that a text adds to a path. -/
def components (text : String) : List String :=
  ((pieces text.toList).map String.ofList).filter fun part => part != "" && part != "."

/-- Whether a text starts with two slashes and no third one. -/
def startsDouble : List Char → Bool
  | '/' :: '/' :: rest => rest.head? != some '/'
  | _ => false

/-- The path that a text gives, starting from the root. -/
def ofText (text : String) : Path := ⟨components text, startsDouble text.toList⟩

/-- A path extended by a text. A text that starts with a slash starts again from the root. -/
def join (path : Path) (text : String) : Path :=
  if text.startsWith "/" then ofText text else { path with parts := path.parts ++ components text }

/-- The path to a place of the tree. -/
def ofPlace (place : List String) : Path := ⟨place, false⟩

/-- The text of a path. -/
def text (path : Path) : String := (if path.doubleRoot then "//" else "/") ++ "/".intercalate path.parts

instance : ToString Path := ⟨text⟩

def name (path : Path) : String := path.parts.getLast?.getD ""

/-- The same path with another last component. -/
def withName (path : Path) (name : String) : Path := { path with parts := path.parts.dropLast ++ [name] }

def parent (path : Path) : Path := { path with parts := path.parts.dropLast }

/-- A file name cut into its stem and its suffix, which includes the dot. -/
def splitName (name : String) : String × String :=
  let reversed := name.toList.reverse
  let extension := reversed.takeWhile (· != '.')
  match reversed.dropWhile (· != '.') with
  | '.' :: stem =>
    if extension.isEmpty || stem.isEmpty then (name, "")
    else (String.ofList stem.reverse, String.ofList ('.' :: extension.reverse))
  | _ => (name, "")

/-- The file name without its suffix. -/
def stem (path : Path) : String := (splitName path.name).1

def suffix (path : Path) : String := (splitName path.name).2

/-- The same path with another suffix. -/
def withSuffix (path : Path) (suffix : String) : Path := path.withName (path.stem ++ suffix)

/-- One component more, where a double dot takes the last component away. -/
def resolveStep (parts : List String) (part : String) : List String :=
  if part == ".." then parts.dropLast else parts ++ [part]

/-- The path without double dots. Two paths to the same place resolve to the same path. -/
def resolve (path : Path) : Path := ofPlace (path.parts.foldl resolveStep [])

theorem not_mem_resolveStep {parts : List String} (part : String) (h : ".." ∉ parts) :
    ".." ∉ resolveStep parts part := by
  unfold resolveStep
  split
  · exact fun hm => h (List.dropLast_subset _ hm)
  · rename_i hp
    intro hm
    rcases List.mem_append.mp hm with hm | hm
    · exact h hm
    · rw [← List.mem_singleton.mp hm] at hp
      exact hp rfl

theorem not_mem_foldl_resolveStep {parts : List String} (more : List String) (h : ".." ∉ parts) :
    ".." ∉ more.foldl resolveStep parts := by
  induction more generalizing parts with
  | nil => exact h
  | cons part more ih => exact ih (not_mem_resolveStep part h)

/-- Components that are no double dots are appended as they are. -/
theorem foldl_resolveStep {more : List String} (parts : List String) (h : ".." ∉ more) :
    more.foldl resolveStep parts = parts ++ more := by
  induction more generalizing parts with
  | nil => simp
  | cons part more ih =>
    have hp : (part == "..") = false := by
      rw [beq_eq_false_iff_ne]
      rintro rfl
      exact h List.mem_cons_self
    rw [List.foldl_cons, ih _ fun hm => h (List.mem_cons_of_mem _ hm)]
    simp [resolveStep, hp]

/-- A resolved path is its own resolution. -/
@[simp] theorem resolve_resolve (path : Path) : path.resolve.resolve = path.resolve := by
  have h : ".." ∉ path.resolve.parts := not_mem_foldl_resolveStep path.parts List.not_mem_nil
  have := foldl_resolveStep [] h
  rw [List.nil_append] at this
  exact congrArg ofPlace this

/-- A resolved path is the path to the place that it names. -/
@[simp] theorem ofPlace_parts_resolve (path : Path) : ofPlace path.resolve.parts = path.resolve := rfl

def moduleSuffix : String := ".jmod"

def symbolSuffix : String := ".jsym"

/-- The symbol document that belongs to a module document. The root has no name to put a suffix to. -/
def symbols? (path : Path) : Option Path :=
  if path.parts.isEmpty then none else some (path.withSuffix symbolSuffix)

/-- Whether a path holds the null character, which no name of a file can. -/
def hasNull (path : Path) : Bool := path.parts.any fun part => part.toList.contains '\x00'

end Path

end JobClosure
