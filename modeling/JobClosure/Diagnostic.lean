import JobClosure.Location

/-!
# Diagnostics

A diagnostic is a finding that does not stop the work: a body that was skipped, a job call that could not
be closed, a module that was left out. It is rendered over up to three lines, with or without colours.
-/

namespace JobClosure

/-- A finding that does not stop the work. -/
structure Diagnostic where
  message : String
  location : Option MetadataLocation
  code : Option String := none
  note : Option String := none
  deriving DecidableEq, Repr

/-- The settings that decide about colours: two settings of the environment, absent or a text, and
whether the output is a terminal. -/
structure ColorSettings where
  noColor : Option String := none
  color : Option String := none
  terminal : Bool := false
  deriving Repr

/-- Colours are used on a terminal unless either setting forbids them. -/
def ColorSettings.enabled (settings : ColorSettings) : Bool :=
  let forbidden := !(settings.noColor.getD "").isEmpty
  let off := ["0", "false", "no", "never"].contains ((settings.color.getD "").map Char.toLower)
  !forbidden && !off && settings.terminal

namespace Diagnostic

/-- The code of a body that was skipped. -/
def skippedBody : String := "S0001"

/-- The code of a job call that could not be closed. -/
def unresolvedCall : String := "R0001"

/-- The code of a module that was left out. -/
def skippedModule : String := "L0001"

/-- The start of a display attribute. -/
def displayCode (code : Nat) : String := s!"\x1b[{code}m"

/-- Bold, and the colours of the head, the arrow and the note. -/
def bold : Nat := 1
def yellow : Nat := 33
def blue : Nat := 34
def cyan : Nat := 36

/-- A text with display attributes, which are reset after it. -/
def styled (color : Bool) (codes : List Nat) (text : String) : String :=
  if color then String.join (codes.map displayCode) ++ text ++ displayCode 0 else text

/-- A text unless it is absent or empty. -/
def nonempty? (text : Option String) : Option String := text.filter (!·.isEmpty)

/-- A diagnostic with its location and its note, each on a line of its own. -/
def render (color : Bool) (d : Diagnostic) : String :=
  let code := match nonempty? d.code with
    | some code => s!"[{code}]"
    | none => ""
  let place := match d.location with
    | some location => location.text
    | none => "<unknown location>"
  let head := styled color [bold, yellow] ("warning" ++ code) ++ styled color [bold] (": " ++ d.message)
  let arrow := styled color [bold, blue] " --> " ++ place
  let note := match nonempty? d.note with
    | some note => [styled color [bold, cyan] "  = " ++ styled color [bold] "note: " ++ note]
    | none => []
  "\n".intercalate (head :: arrow :: note)

/-- All diagnostics, with an empty line between them. -/
def renderAll (color : Bool) (ds : List Diagnostic) : String := "\n\n".intercalate (ds.map (render color))

/-- The diagnostics with a given code, or without one. -/
def withCode (code : Option String) (ds : List Diagnostic) : List Diagnostic :=
  ds.filter fun d => d.code == code

end Diagnostic

end JobClosure
