/-!
# Binary floating point numbers

A real number of a document is a binary floating point number of 64 bits. A finite one is
`± mantissa · 2 ^ exponent` with a mantissa below `2 ^ 53`. `ofRatio` rounds a positive fraction to the
nearest such number, a tie to the even mantissa, in exact arithmetic.
-/

namespace JobClosure.Numeral

/-- The power of a base; one for a negative exponent. -/
def powerOf (base : Nat) (exponent : Int) : Nat := Nat.pow base exponent.toNat

/-- A binary floating point number of 64 bits. -/
inductive Binary64
  | finite (negative : Bool) (mantissa : Nat) (exponent : Int)
  | infinite (negative : Bool)
  | notANumber
  deriving DecidableEq, Repr

namespace Binary64

/-- The exponent of the smallest positive number. -/
def leastExponent : Int := -1074

/-- The exponent of the largest finite numbers. -/
def greatestExponent : Int := 971

/-- Mantissas are smaller than this, and from half of it on unless the exponent is the least. -/
def mantissaBound : Nat := powerOf 2 53

/-- Zero. -/
def zero (negative : Bool) : Binary64 := .finite negative 0 leastExponent

/-- A fraction rounded to the nearest natural number, a tie to the even one. -/
def roundedQuotient (num den : Nat) : Nat :=
  let q := num / den
  let twice := 2 * (num % den)
  if den < twice || (twice == den && q % 2 == 1) then q + 1 else q

/-- `num / den` divided by `2 ^ exponent`, as a fraction. -/
def scaled (num den : Nat) (exponent : Int) : Nat × Nat :=
  (num * powerOf 2 (-exponent), den * powerOf 2 exponent)

/-- The exponent at which the positive fraction `num / den` has a mantissa of 53 bits, or the least one. -/
def exponentOf (num den : Nat) : Int :=
  let guess : Int := (Nat.log2 num : Int) - (Nat.log2 den : Int) - 53
  let (n, d) := scaled num den guess
  max leastExponent (if n < d * mantissaBound then guess else guess + 1)

/-- A finite number, or infinity if the exponent is too large for one. -/
def bounded (negative : Bool) (mantissa : Nat) (exponent : Int) : Binary64 :=
  if greatestExponent < exponent then .infinite negative else .finite negative mantissa exponent

/-- A number with a mantissa that has just been rounded, perhaps up to the bound. -/
def ofMantissa (negative : Bool) (mantissa : Nat) (exponent : Int) : Binary64 :=
  if mantissa == mantissaBound then bounded negative (mantissaBound / 2) (exponent + 1)
  else bounded negative mantissa exponent

/-- The number nearest to the positive fraction `num / den`. -/
def ofRatio (negative : Bool) (num den : Nat) : Binary64 :=
  let exponent := exponentOf num den
  let fraction := scaled num den exponent
  ofMantissa negative (roundedQuotient fraction.1 fraction.2) exponent

/-- The number nearest to `± digits · 10 ^ power`. Beyond three hundred and thirty decimal places in
either direction only the two ends of the range are left. -/
def ofDecimal (negative : Bool) (digits : Nat) (power : Int) : Binary64 :=
  let places : Int := (Nat.toDigits 10 digits).length + power
  if digits == 0 then zero negative
  else if places < -330 then zero negative
  else if 330 < places then .infinite negative
  else ofRatio negative (digits * powerOf 10 power) (powerOf 10 (-power))

/-- Why a number has no whole part. -/
inductive WholePartFault
  | notANumber
  | infinite
  deriving DecidableEq, Repr

/-- The whole part: digits after the point are dropped. -/
def wholePart : Binary64 → Except WholePartFault Int
  | .notANumber => .error .notANumber
  | .infinite _ => .error .infinite
  | .finite negative mantissa exponent =>
    let size : Int := (mantissa * powerOf 2 exponent / powerOf 2 (-exponent) : Nat)
    .ok (if negative then -size else size)

end Binary64

end JobClosure.Numeral
