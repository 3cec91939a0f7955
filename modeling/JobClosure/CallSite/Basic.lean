import JobClosure.Distinct
import JobClosure.Metadata.Basic
import JobClosure.TypeRef.Substitution

/-!
# Call references and call sites

A call reference is a place in a method body that names a job type which is still open. It may also be
made by hand, even for a bare parameter. A call site is a
place where one method calls another; it binds parameters of the callee, and of the type that declares the
callee, to arguments in terms of the caller's parameters.
-/

namespace JobClosure

/-- A job type named in the body of a method, to be closed. -/
structure CallReference where
  entry : MethodId
  target : TypeArg
  /-- The spelling of the operand that names the target. -/
  invoked : String := ""
  deriving DecidableEq, Repr

namespace CallReference

/-- The target and the method it was found in. -/
def text (call : CallReference) : String := call.target.spell ++ " in " ++ call.entry.text

/-- Call references with one key count as one. -/
def key (call : CallReference) : String × String := (call.target.spell, call.entry.text)

/-- The first call reference for every target and method. -/
def dedupe (calls : List CallReference) : List CallReference := distinctBy key calls

end CallReference

/-- A call from one method to another. -/
structure CallSite where
  caller : MethodId
  callee : MethodId
  bindings : Bindings := []
  deriving DecidableEq, Repr

/-- Whether a call supplies generic arguments. -/
def CallSite.isGeneric (site : CallSite) : Bool := !site.bindings.isEmpty

end JobClosure
