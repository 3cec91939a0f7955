import JobClosure.Text.Blank
import JobClosure.Text.Digit

/-!
# Whole numbers

A whole number is written as an optional sign and decimal digits of any script. Single underscores may
stand between digits and blanks may surround the whole. A number of more than 4300 digits is refused,
leading zeros counted.
-/

namespace JobClosure.Numeral

/-- Why a text is not a whole number. -/
inductive WholeFault
  | malformed
  | tooLong (digits : Nat)
  deriving DecidableEq, Repr

/-- The most digits a whole number may have. -/
def digitLimit : Nat := 4300

/-- The digits after the first one of a run and what follows them. An underscore must have a digit on
its right. -/
def moreDigits : List Char → Option (List Nat × List Char)
  | [] => some ([], [])
  | '_' :: [] => none
  | '_' :: c :: rest =>
    match Text.digitValue? c with
    | some d => (moreDigits rest).map fun (ds, tail) => (d :: ds, tail)
    | none => none
  | c :: rest =>
    match Text.digitValue? c with
    | some d => (moreDigits rest).map fun (ds, tail) => (d :: ds, tail)
    | none => some ([], c :: rest)

/-- A run of at least one digit, and what follows it. -/
def digitRun : List Char → Option (List Nat × List Char)
  | [] => none
  | c :: rest =>
    match Text.digitValue? c with
    | some d => (moreDigits rest).map fun (ds, tail) => (d :: ds, tail)
    | none => none

/-- The number that a sequence of decimal digits writes. -/
def ofDigits (ds : List Nat) : Nat := ds.foldl (fun n d => 10 * n + d) 0

/-- An optional sign (whether it is a minus) and what follows it. -/
def sign : List Char → Bool × List Char
  | '-' :: rest => (true, rest)
  | '+' :: rest => (false, rest)
  | cs => (false, cs)

/-- The whole number that a text writes. -/
def readWhole (cs : List Char) : Except WholeFault Int :=
  let (negative, unsigned) := sign (cs.dropWhile Text.isWideBlank)
  match digitRun unsigned with
  | none => .error .malformed
  | some (ds, tail) =>
    if digitLimit < ds.length then .error (.tooLong ds.length)
    else if tail.all Text.isWideBlank then
      .ok (if negative then -(ofDigits ds : Int) else ofDigits ds)
    else .error .malformed

end JobClosure.Numeral
