import JobClosure.Numeral.Binary64
import JobClosure.Numeral.Whole
import JobClosure.Text.Quoted

/-!
# Faults of numbers

A number may be asked for where a text, a real number or something else stands. This module names the
ways in which that fails and words them.
-/

namespace JobClosure.Numeral

/-- Why something is not the whole number that is wanted. -/
inductive Fault
  /-- A text, or something shown like one, that writes no whole number. -/
  | notWhole (shown : String)
  | tooLong (digits : Nat)
  | notANumber
  | infinite
  /-- Something of this kind, which is no number at all. -/
  | notNumeric (kind : String)
  deriving DecidableEq, Repr

namespace Fault

/-- Shown values are cut off after this many characters. -/
def shownLimit : Nat := 200

def message : Fault → String
  | .notWhole shown =>
    "invalid literal for int() with base 10: " ++ String.ofList (shown.toList.take shownLimit)
  | .tooLong digits =>
    s!"Exceeds the limit ({digitLimit} digits) for integer string conversion: value has {digits} digits; "
      ++ "use sys.set_int_max_str_digits() to increase the limit"
  | .notANumber => "cannot convert float NaN to integer"
  | .infinite => "cannot convert float infinity to integer"
  | .notNumeric kind =>
    s!"int() argument must be a string, a bytes-like object or a real number, not '{kind}'"

end Fault

/-- The whole number that a text writes. In a message the text appears as `shown`. -/
def wholeOf (text shown : String) : Except Fault Int :=
  match readWhole text.toList with
  | .ok value => .ok value
  | .error .malformed => .error (.notWhole shown)
  | .error (.tooLong digits) => .error (.tooLong digits)

/-- The whole number that a text writes. -/
def wholeOfText (text : String) : Except Fault Int := wholeOf text (Text.quoted text)

/-- The whole part of a real number. -/
def wholeOfReal (value : Binary64) : Except Fault Int :=
  match value.wholePart with
  | .ok value => .ok value
  | .error .notANumber => .error .notANumber
  | .error .infinite => .error .infinite

end JobClosure.Numeral
