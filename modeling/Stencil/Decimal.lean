/-
Reading whole numbers below 2^64 in decimal digits.
-/

namespace Stencil

/-- The first number that 64 bits do not hold: 2 to the power of 64. -/
def word64Bound : Nat := 18446744073709551616

theorem word64Bound_eq : word64Bound = Nat.pow 2 64 := by decide

/-- The value of some digits, the most significant first. -/
def digitsValue (digits : List Char) : Nat :=
  digits.foldl (fun value digit => value * 10 + (digit.toNat - '0'.toNat)) 0

/-- Whether some characters are digits, and there is at least one. -/
def areDigits (chars : List Char) : Bool :=
  !chars.isEmpty && chars.all (fun char => '0' ≤ char && char ≤ '9')

/-- The characters of a text without the plus sign that it may begin with. -/
def unsigned (text : String) : List Char :=
  match text.toList with
  | '+' :: rest => rest
  | chars => chars

/-- The number below 2^64 that a text spells.  A plus sign may stand before
the digits. -/
def word64? (text : String) : Option Nat :=
  let digits := unsigned text
  if areDigits digits ∧ digitsValue digits < word64Bound then
    some (digitsValue digits)
  else none

/-- The value of a digit in a base of at most 16. -/
def hexDigit? (char : Char) : Option Nat :=
  if '0' ≤ char ∧ char ≤ '9' then some (char.toNat - '0'.toNat)
  else if 'a' ≤ char ∧ char ≤ 'f' then some (char.toNat - 'a'.toNat + 10)
  else if 'A' ≤ char ∧ char ≤ 'F' then some (char.toNat - 'A'.toNat + 10)
  else none

/-- The value in a base of some values of digits. -/
def valueInBase (base : Nat) (values : List Nat) : Nat :=
  values.foldl (fun total value => total * base + value) 0

/-- The number below 2^64 that some digits spell in a base. -/
def word64InBase? (base : Nat) (digits : List Char) : Option Nat :=
  (digits.mapM hexDigit?).bind fun values =>
    if !values.isEmpty && values.all (· < base) &&
        decide (valueInBase base values < word64Bound) then
      some (valueInBase base values)
    else none

end Stencil
