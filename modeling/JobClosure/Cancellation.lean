/-!
# Cancellation

Long work asks between its steps whether it has been cancelled. A cancellation counts the questions that
are still answered with no; `never` answers all of them so. Once cancelled, it stays cancelled.
-/

namespace JobClosure

/-- When a request is cancelled. -/
inductive Cancellation
  | never
  /-- After this many more questions. -/
  | after (questions : Nat)
  deriving DecidableEq, Repr, Inhabited

namespace Cancellation

/-- The cancelled state. -/
def now : Cancellation := .after 0

/-- Whether the work has been cancelled. -/
def isCancelled (c : Cancellation) : Bool := c == now

/-- Asks once: nothing if the work has been cancelled, else the state for the next question. -/
def ask? : Cancellation → Option Cancellation
  | .never => some .never
  | .after 0 => none
  | .after (n + 1) => some (.after n)

end Cancellation

end JobClosure
