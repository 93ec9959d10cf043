/-
Numbers as they are written: whole ones of 64 bits, and all others rounded to
53 binary digits.
-/
import Stencil.Binary
import Stencil.Decimal

namespace Stencil

/-- A number, with its sign even where it is zero. -/
inductive Number where
  | whole (value : Int)
  | rounded (negative : Bool) (size : Binary)
  deriving DecidableEq, Repr, Inhabited

/-- The value of as many digits as 64 bits hold, after digits of the given
value, and how many digits are left. -/
def takeDigits (value : Nat) : List Char → Nat × Nat
  | [] => (value, 0)
  | digit :: rest =>
      let more := value * 10 + (digit.toNat - '0'.toNat)
      if more < word64Bound then takeDigits more rest
      else (value, rest.length + 1)

/-- The number with the given digits before and after the point, times a power
of ten.  It is whole if neither a point nor a power is written and it fits
into 64 bits; a zero with a minus sign is not.  Digits that 64 bits do not
hold are dropped before anything is rounded. -/
def Number.ofDigits (negative : Bool) (before : List Char)
    (after : Option (List Char)) (power : Option Int) : Number :=
  let (value, dropped) := takeDigits 0 before
  let isWhole := after.isNone && power.isNone && dropped == 0 &&
    (!negative || (value != 0 && decide (2 * value ≤ word64Bound)))
  if isWhole then .whole (if negative then -Int.ofNat value else value)
  else
    let places := after.getD []
    let (value, left) := takeDigits value places
    let power := power.getD 0 + dropped - Int.ofNat (places.length - left)
    .rounded negative (Binary.scaled value power)

/-- A number between its first and its last place: digits, a point, and digits
again. -/
def positional (digits : List Char) (power : Int) : List Char :=
  let zeros (count : Int) : List Char := List.replicate count.toNat '0'
  let point := Int.ofNat digits.length + power
  if 0 ≤ power then digits ++ zeros power ++ ['.', '0']
  else if 0 < point then
    digits.take point.toNat ++ '.' :: digits.drop point.toNat
  else '0' :: '.' :: zeros (-point) ++ digits

/-- A number as its first digit, a point, the other digits, and the power of
ten of the first. -/
def scientific (digits : List Char) (first : Int) : List Char :=
  let places := digits.drop 1
  digits.take 1 ++ (if places.isEmpty then [] else '.' :: places) ++
    'e' :: (if first < 0 then '-' else '+') :: Nat.toDigits 10 first.natAbs

/-- A number as text.  A rounded one keeps its point; where its first digit
stands below the fifth place or above the sixteenth, the power of ten is
named. -/
def Number.text : Number → String
  | .whole value => toString value
  | .rounded negative size =>
      let (value, power) := size.shortest
      let digits := Nat.toDigits 10 value
      let first := Int.ofNat digits.length - 1 + power
      String.ofList ((if negative then ['-'] else []) ++
        (if -5 ≤ first ∧ first ≤ 15 then positional digits power
        else scientific digits first))

end Stencil
