import JobClosure.FileTree.Path

/-!
# Locations

Where something was found: a place in a source file, a member of a module, a document, or a plain text.
-/

namespace JobClosure

/-- A place in a source file. -/
structure SourceLocation where
  file : String
  line : Int
  column : Int := 0
  deriving DecidableEq, Repr, Inhabited

/-- File, line and column, separated by colons. -/
def SourceLocation.text (location : SourceLocation) : String :=
  s!"{location.file}:{location.line}:{location.column}"

/-- A module, or one member of it. -/
structure MetadataLocation where
  module : String
  member : Option String := none
  deriving DecidableEq, Repr, Inhabited

/-- The module, with its member in square brackets. An empty member counts as none. -/
def MetadataLocation.text (location : MetadataLocation) : String :=
  match location.member with
  | none => location.module
  | some member => if member.isEmpty then location.module else s!"{location.module}[{member}]"

/-- Where a failure occurred. -/
inductive Location
  | words (content : String)
  | path (path : Path)
  | source (location : SourceLocation)
  | metadata (location : MetadataLocation)
  deriving DecidableEq, Repr

namespace Location

/-- The text of a location. -/
def shown : Location → String
  | .words content => content
  | .path file => file.text
  | .source location => location.text
  | .metadata location => location.text

/-- Whether a location says anything. -/
def isKnown : Location → Bool
  | .words content => !content.isEmpty
  | _ => true

/-- A message followed by a line with its location, if that is known. -/
def append (message : String) (location : Option Location) : String :=
  match location with
  | none => message
  | some location => if location.isKnown then s!"{message}\n --> {location.shown}" else message

end Location

end JobClosure
