/-
Numbers of at most 53 binary digits: rounding to them, and the fewest decimal
digits that name one.
-/

namespace Stencil

/-- The number `mantissa * 2 ^ exponent`. -/
structure Binary where
  mantissa : Nat
  exponent : Int
  deriving DecidableEq, Repr

/-- A power of a base as a quotient of whole numbers. -/
def scaleParts (base : Nat) (exponent : Int) : Nat × Nat :=
  (Nat.pow base exponent.toNat, Nat.pow base (-exponent).toNat)

namespace Binary

/-- The number as a quotient. -/
def ratio (value : Binary) : Nat × Nat :=
  let (up, down) := scaleParts 2 value.exponent
  (value.mantissa * up, down)

/-- The least number whose binary digits are 53. -/
def unit : Nat := 4503599627370496

/-- The exponent of the finest numbers. -/
def leastExponent : Int := -1074

/-- The exponent at which a quotient has 53 binary digits before the point, or
the least one. -/
def exponentOf (num den : Nat) : Int :=
  let guess : Int := Int.ofNat (Nat.log2 num) - Int.ofNat (Nat.log2 den) - 52
  let (up, down) := scaleParts 2 guess
  max leastExponent (if num * down < unit * (den * up) then guess - 1 else guess)

/-- The whole number nearest to a quotient; of two, the even one. -/
def nearestWhole (num den : Nat) : Nat :=
  let whole := num / den
  let twice := 2 * (num % den)
  if twice < den ∨ (twice = den ∧ whole % 2 = 0) then whole else whole + 1

/-- The number nearest to a quotient.  None is too great. -/
def nearest (num den : Nat) : Binary :=
  if num = 0 then ⟨0, 0⟩
  else
    let exponent := exponentOf num den
    let (up, down) := scaleParts 2 exponent
    let mantissa := nearestWhole (num * down) (den * up)
    if mantissa = 2 * unit then ⟨unit, exponent + 1⟩ else ⟨mantissa, exponent⟩

def mul (left right : Binary) : Binary :=
  nearest (left.ratio.1 * right.ratio.1) (left.ratio.2 * right.ratio.2)

def div (left right : Binary) : Binary :=
  nearest (left.ratio.1 * right.ratio.2) (left.ratio.2 * right.ratio.1)

/-- The number nearest to a power of ten. -/
def ten (power : Nat) : Binary := nearest (Nat.pow 10 power) 1

/-- The last power of ten that is not too great. -/
def lastPower : Nat := 308

/-- A number times a power of ten, with one rounding for the number, one for
the power and one for the product.  Two divisions are made where one would
need too great a power. -/
def scaled (digits : Nat) (power : Int) : Binary :=
  let value := nearest digits 1
  if 0 ≤ power then value.mul (ten power.toNat)
  else
    let power := (-power).toNat
    if power ≤ lastPower then value.div (ten power)
    else
      let value := value.div (ten lastPower)
      if power ≤ 2 * lastPower then value.div (ten (power - lastPower))
      else ⟨0, 0⟩

/-- Whether the quotient `num / den` rounds to a number that is not zero.  What
lies halfway to a neighbour rounds to it if its mantissa is even.  Below a
power of two the neighbour is nearer. -/
def isRounded (value : Binary) (num den : Nat) : Bool :=
  let (up, down) := scaleParts 2 (value.exponent - 2)
  let low := if value.mantissa = unit ∧ leastExponent < value.exponent then 1
    else 2
  let least := (4 * value.mantissa - low) * (up * den)
  let most := (4 * value.mantissa + 2) * (up * den)
  let given := num * down
  if value.mantissa % 2 = 0 then decide (least ≤ given ∧ given ≤ most)
  else decide (least < given ∧ given < most)

/-- The power of ten of the first digit of a quotient that is not zero. -/
def leadingPower (num den : Nat) : Int :=
  if den ≤ num then Int.ofNat (Nat.toDigits 10 (num / den)).length - 1
  else 0 - Int.ofNat (Nat.toDigits 10 ((den - 1) / num)).length

/-- The nearest multiple of a power of ten that rounds to the number.  Of two
at the same distance the even one is nearer. -/
def multiple? (value : Binary) (power : Int) : Option Nat :=
  let (num, den) := value.ratio
  let (up, down) := scaleParts 10 power
  let floor := num * down / (den * up)
  let nearer := nearestWhole (num * down) (den * up)
  let farther := if nearer = floor then floor + 1 else floor
  if value.isRounded (nearer * up) down then some nearer
  else if value.isRounded (farther * up) down then some farther
  else none

/-- The multiple of the greatest power of ten, from `power` down, that rounds
to the number.  The last argument bounds how many powers are tried. -/
def multipleFrom (value : Binary) (power : Int) : Nat → Nat × Int
  | 0 => (0, 0)
  | most + 1 =>
      match value.multiple? power with
      | some digits => (digits, power)
      | none => value.multipleFrom (power - 1) most

/-- The fewest decimal digits that round to a number, and the power of ten of
the last of them.  Seventeen digits are always enough. -/
def shortest (value : Binary) : Nat × Int :=
  if value.mantissa = 0 then (0, 0)
  else
    value.multipleFrom (leadingPower value.ratio.1 value.ratio.2 + 1) 19

end Binary

end Stencil
