/-!
# Doubles as exact dyadic numbers

A finite double is a whole number of units of a power of two. This module takes
the bits of a double apart into that exact value, so that every text of a number
elsewhere in the library is chosen by whole-number arithmetic and never by
rounding twice.

## Main definitions

* `Dyadic` — a magnitude `mantissa * 2 ^ exponent`, with the one fact about its
  neighbours that decides which decimals read back to it.
* `DoubleClass`, `classify` — not-a-number, an infinity, or a sign with a
  `Dyadic`.
* `wholePart?` — the whole part of a double.
* `Dyadic.decimalExponent` — the position of the leading decimal digit.
* `roundDiv` — a quotient of whole numbers, rounded to the nearest, a half to
  the even one.
-/

namespace RatingFactors.Decimal

/-- A power of two. -/
def powerOfTwo (n : Nat) : Nat :=
  Nat.pow 2 n

/-- A power of ten. -/
def powerOfTen (n : Nat) : Nat :=
  Nat.pow 10 n

/-- A non-negative magnitude `mantissa * 2 ^ exponent` as stored in a double.

`narrowBelow` holds when the next smaller double is half as far away as the next
larger one, which happens at the powers of two. -/
structure Dyadic where
  mantissa : Nat
  exponent : Int
  narrowBelow : Bool
deriving DecidableEq, Repr

/-- What a double stands for. -/
inductive DoubleClass
  | nan
  | infinite (negative : Bool)
  | finite (negative : Bool) (magnitude : Dyadic)
deriving DecidableEq, Repr

/-- Sorts a double by the three fields of its bits: sign, eleven bits of
exponent, fifty-two of fraction. -/
def classify (x : Float) : DoubleClass :=
  let bits : Nat := x.toBits.toNat
  let negative := bits / powerOfTwo 63 % 2 == 1
  let biased : Nat := bits / powerOfTwo 52 % powerOfTwo 11
  let fraction : Nat := bits % powerOfTwo 52
  if biased = 2047 then
    if fraction = 0 then .infinite negative else .nan
  else if biased = 0 then
    .finite negative ⟨fraction, -1074, false⟩
  else
    .finite negative ⟨powerOfTwo 52 + fraction, (biased : Int) - 1075,
      fraction == 0 && 1 < biased⟩

namespace Dyadic

/-- The numerator of the value as a quotient of whole numbers. -/
def numerator (d : Dyadic) : Nat :=
  d.mantissa * powerOfTwo d.exponent.toNat

/-- The denominator of the value as a quotient of whole numbers. -/
def denominator (d : Dyadic) : Nat :=
  powerOfTwo (-d.exponent).toNat

/-- The denominator is never zero, so the quotient is the value. -/
theorem denominator_pos (d : Dyadic) : 0 < d.denominator :=
  Nat.two_pow_pos _

end Dyadic

/-- The whole part of a double, cut towards zero; infinities and what is no
number have none. -/
def wholePart? (x : Float) : Option Int :=
  match classify x with
  | .finite negative d =>
    let size : Nat := d.numerator / d.denominator
    some (if negative then -(size : Int) else size)
  | _ => none

/-- The number of decimal digits of a whole number; zero has one. -/
def digitCount (n : Nat) : Nat :=
  (Nat.toDigits 10 n).length

/-- The exponent `e` with `10 ^ e ≤ v < 10 ^ (e + 1)`, for `v` the quotient of
two positive numbers. Below one it is found from the size of the reciprocal,
which leaves two candidates. -/
def leadingExponent (num den : Nat) : Int :=
  if den ≤ num then
    (digitCount (num / den) : Int) - 1
  else
    let size := digitCount (den / num)
    if den ≤ num * powerOfTen (size - 1) then -((size : Int) - 1)
    else -(size : Int)

/-- The position of the leading decimal digit of a positive magnitude. -/
def Dyadic.decimalExponent (d : Dyadic) : Int :=
  leadingExponent d.numerator d.denominator

/-- The quotient of two whole numbers rounded to the nearest whole number; a
half goes to the even neighbour. -/
def roundDiv (num den : Nat) : Nat :=
  let quotient := num / den
  let twice := 2 * (num % den)
  if twice < den then quotient
  else if den < twice then quotient + 1
  else quotient + quotient % 2

/-- Rounding leaves exact multiples alone. -/
theorem roundDiv_mul_left (a b : Nat) (h : 0 < b) : roundDiv (b * a) b = a := by
  simp [roundDiv, Nat.mul_div_cancel_left a h, h]

end RatingFactors.Decimal
