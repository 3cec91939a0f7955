import JobClosure.Store.Basic
import JobClosure.Synthesis

/-!
# Saving modules

A store writes modules to the files they belong to. Whatever goes wrong is reported as a failure to write
that module. A synthesised group becomes part of the module before the module is written, and stays there
if writing fails.
-/

namespace JobClosure

namespace Store

/-- Writes a module, and its symbols if they are wanted. A full store writes nothing. -/
def write (s : Store) (m : Module) (withSymbols : Bool) : Except Error Path × Store :=
  let (files, result) :=
    if s.full then (s.files, .error (.storage .noSpace)) else m.write withSymbols s.files
  (result.mapError (.cannotWrite m.name m.path), { s with files })

/-- Synthesises a group of closed types in an opened module and writes the module. -/
def synthesize (s : Store) (handle : Nat) (index : Option Index) (group : String)
    (items : List Instantiation) : Except Error TypeDef × Store :=
  match ((s.module? handle).getD default).synthesize index group items with
  | .error error => (.error error, s)
  | .ok (type, m) =>
    let (result, s) := (s.replace handle m).write m true
    (result.map fun _ => type, s)

end Store

end JobClosure
