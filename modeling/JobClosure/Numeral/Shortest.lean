import JobClosure.Numeral.Binary64

/-!
# The shortest text of a real number

A real number is written with the fewest decimal digits that round back to it; among those the nearest
to its exact value is taken, and of two equally near ones the even. All comparisons are exact.
-/

namespace JobClosure.Numeral

/-- `digits · 10 ^ power`. -/
structure Decimal where
  digits : Nat
  power : Int
  deriving DecidableEq, Repr

namespace Decimal

/-- Compares `a · 10 ^ i` with `b · 2 ^ j`. -/
def compareScaled (a : Nat) (i : Int) (b : Nat) (j : Int) : Ordering :=
  compare (a * powerOf 10 i * powerOf 2 (-j)) (b * powerOf 2 j * powerOf 10 (-i))

/-- Whether a decimal rounds to `mantissa · 2 ^ exponent`. The reals that do so reach half way to the
neighbours on both sides, the ends included when the mantissa is even; below a power of two the lower
neighbour is only half as far away. -/
def roundsTo (d : Decimal) (mantissa : Nat) (exponent : Int) : Bool :=
  let narrow := 2 * mantissa == Binary64.mantissaBound && Binary64.leastExponent < exponent
  let low := if narrow then 4 * mantissa - 1 else 4 * mantissa - 2
  let high := 4 * mantissa + 2
  let closed := mantissa % 2 == 0
  let atLow := compareScaled d.digits d.power low (exponent - 2)
  let atHigh := compareScaled d.digits d.power high (exponent - 2)
  (atLow == .gt || (closed && atLow == .eq)) && (atHigh == .lt || (closed && atHigh == .eq))

/-- The least `k` with `mantissa · 2 ^ exponent < 10 ^ k`, looked for upwards from a first guess. -/
def scaleFrom (mantissa : Nat) (exponent guess : Int) : Nat → Int
  | 0 => guess
  | tries + 1 =>
    if compareScaled 1 guess mantissa exponent == .gt then guess
    else scaleFrom mantissa exponent (guess + 1) tries

/-- The least `k` with `mantissa · 2 ^ exponent < 10 ^ k`. The guess is at most two too small. -/
def scale (mantissa : Nat) (exponent : Int) : Int :=
  scaleFrom mantissa exponent (((Nat.log2 mantissa : Int) + exponent) * 30103 / 100000 - 1) 4

/-- The decimal with last place `10 ^ power` that is nearest to `mantissa · 2 ^ exponent` among the two
around it that round to it. -/
def nearestAt? (mantissa : Nat) (exponent power : Int) : Option Decimal :=
  let floor := mantissa * powerOf 2 exponent * powerOf 10 (-power) / (powerOf 2 (-exponent) * powerOf 10 power)
  let below : Decimal := ⟨floor, power⟩
  let above : Decimal := ⟨floor + 1, power⟩
  match below.roundsTo mantissa exponent, above.roundsTo mantissa exponent with
  | true, false => some below
  | false, true => some above
  | false, false => none
  | true, true =>
    match compareScaled (2 * floor + 1) power (2 * mantissa) exponent with
    | .gt => some below
    | .lt => some above
    | .eq => some (if floor % 2 == 0 then below else above)

/-- The decimal with the fewest digits that rounds to the positive number `mantissa · 2 ^ exponent`.
Seventeen digits always suffice. -/
def shortest (mantissa : Nat) (exponent : Int) : Decimal :=
  let k := scale mantissa exponent
  ((List.range 17).findSome? fun (n : Nat) => nearestAt? mantissa exponent (k - n - 1)).getD
    ⟨mantissa * powerOf 2 exponent * powerOf 5 (-exponent), min exponent 0⟩

end Decimal

/-- How real numbers are laid out: positionally if the point falls at most `leading` zeros before the
first digit and at most `places` digits after it, else with an exponent of at least `exponentWidth`
digits. -/
structure Layout where
  leading : Int
  places : Int
  exponentWidth : Nat

/-- Real numbers are positional from `0.0001` up to seventeen places, and exponents have two digits. -/
def realLayout : Layout := ⟨3, 16, 2⟩

/-- The digits without the zeros at their end; one digit always stays. -/
def significant (ds : List Char) : List Char :=
  match (ds.reverse.dropWhile (· == '0')).reverse with
  | [] => ['0']
  | ds => ds

/-- A power of ten as an exponent: a sign and at least `width` digits. -/
def exponentText (width : Nat) (power : Int) : List Char :=
  let digits := Nat.toDigits 10 power.natAbs
  (if power < 0 then '-' else '+') :: List.replicate (width - digits.length) '0' ++ digits

/-- Digits `0.d₁d₂… · 10 ^ point` laid out. -/
def Layout.write (layout : Layout) (ds : List Char) (point : Int) : List Char :=
  if -layout.leading ≤ point && point ≤ layout.places then
    if point ≤ 0 then '0' :: '.' :: List.replicate (-point).toNat '0' ++ ds
    else
      let whole := ds.take point.toNat
      let zeros := List.replicate (point.toNat - whole.length) '0'
      let fraction := ds.drop point.toNat
      whole ++ zeros ++ '.' :: (if fraction.isEmpty then ['0'] else fraction)
  else
    let tail := ds.drop 1
    ds.take 1 ++ (if tail.isEmpty then [] else '.' :: tail) ++ 'e' :: exponentText layout.exponentWidth (point - 1)

/-- The text of a positive finite number. -/
def magnitudeText (mantissa : Nat) (exponent : Int) : List Char :=
  if mantissa == 0 then ['0', '.', '0']
  else
    let d := Decimal.shortest mantissa exponent
    let ds := Nat.toDigits 10 d.digits
    realLayout.write (significant ds) (ds.length + d.power)

/-- The text of a real number. -/
def Binary64.text : Binary64 → String
  | .notANumber => "nan"
  | .infinite negative => if negative then "-inf" else "inf"
  | .finite negative mantissa exponent =>
    String.ofList ((if negative then ['-'] else []) ++ magnitudeText mantissa exponent)

end JobClosure.Numeral
