import JobClosure.Numeral.Binary64
import JobClosure.Numeral.Whole

/-!
# Real numbers in text

A real number is written as an optional sign, digits with an optional point among them and an optional
exponent, or as one of the words for the values that are not finite. Digits may be of any script, single
underscores may stand between digits, and blanks may surround the whole.
-/

namespace JobClosure.Numeral

/-- Digits of any script as digits of ASCII; every other character stays. -/
def asciiDigit (c : Char) : Char :=
  match Text.digitValue? c with
  | some d => Char.ofNat ('0'.toNat + d)
  | none => c

/-- A digit of ASCII. -/
def isAsciiDigit (c : Char) : Bool := '0' ≤ c && c ≤ '9'

/-- A text without its underscores, each of which must stand between two digits. `before` is the
character on the left. -/
def withoutUnderscores (before : Char) : List Char → Option (List Char)
  | [] => some []
  | '_' :: rest =>
    match rest with
    | c :: _ =>
      if isAsciiDigit before && isAsciiDigit c then withoutUnderscores '_' rest else none
    | [] => none
  | c :: rest => (withoutUnderscores c rest).map (c :: ·)

/-- The exponent part after the mantissa: none, or the mark, an optional sign and digits to the end. -/
def readExponent : List Char → Option Int
  | [] => some 0
  | mark :: rest =>
    let (negative, digits) := sign rest
    if (mark == 'e' || mark == 'E') && !digits.isEmpty && digits.all isAsciiDigit then
      let n : Int := ofDigits (digits.map fun c => c.toNat - '0'.toNat)
      some (if negative then -n else n)
    else none

/-- The digits before the point and those after it, and what follows. -/
def splitMantissa (cs : List Char) : List Char × List Char × List Char :=
  let before := cs.takeWhile isAsciiDigit
  match cs.dropWhile isAsciiDigit with
  | '.' :: rest => (before, rest.takeWhile isAsciiDigit, rest.dropWhile isAsciiDigit)
  | rest => (before, [], rest)

/-- An unsigned real number in digits. -/
def readMagnitude (negative : Bool) (cs : List Char) : Option Binary64 :=
  let (before, after, rest) := splitMantissa cs
  let digits := before ++ after
  if digits.isEmpty then none
  else
    (readExponent rest).map fun exponent =>
      Binary64.ofDecimal negative (ofDigits (digits.map fun c => c.toNat - '0'.toNat))
        (exponent - after.length)

/-- The real number that a text writes. -/
def readReal? (cs : List Char) : Option Binary64 :=
  match withoutUnderscores ' ' ((Text.trimBlanks cs).map asciiDigit) with
  | none => none
  | some signed =>
    let (negative, unsigned) := sign signed
    let word := String.ofList (unsigned.map Char.toLower)
    if word == "inf" || word == "infinity" then some (.infinite negative)
    else if word == "nan" then some .notANumber
    else readMagnitude negative unsigned

end JobClosure.Numeral
