/-!
# Reading decimals

The value of a written decimal, correctly rounded, and the value of a run of
digits. The texts themselves are taken apart elsewhere; here only numbers meet.

## Main definitions

* `valueOfDigits` — the whole number that a list of digit values writes.
* `nearest` — the double nearest to `digits * 10 ^ exponent`. Exponents far out
  of range are settled before any power is taken, so a long exponent costs
  nothing.
* `accumulated` — the double that the digit-by-digit method finds: at most
  seventeen digits are gathered in double arithmetic and scaled once by a power
  of ten. Ratings tables are read so.
-/

namespace RatingFactors.Decimal

/-- The whole number that a list of digit values writes, most significant
first. -/
def valueOfDigits (digits : List Nat) : Nat :=
  digits.foldl (fun value digit => 10 * value + digit) 0

/-- One more digit on the right. -/
theorem valueOfDigits_append_singleton (digits : List Nat) (d : Nat) :
    valueOfDigits (digits ++ [d]) = 10 * valueOfDigits digits + d := by
  simp [valueOfDigits, List.foldl_append]

/-- The double nearest to `digits * 10 ^ exponent`. -/
def nearest (digits : Nat) (exponent : Int) : Float :=
  let size : Int := (Nat.toDigits 10 digits).length
  if digits = 0 then 0.0
  else if 320 < size + exponent then 1.0 / 0.0
  else if size + exponent < -340 then 0.0
  else Float.ofScientific digits (exponent < 0) exponent.natAbs

/-- A power of ten as the double nearest to it. -/
def nearestPowerOfTen (n : Nat) : Float :=
  nearest 1 n

/-- Gathers digit values in double arithmetic. -/
def gatherDigits (digits : List Nat) : Float :=
  digits.foldl (fun value digit => value * 10.0 + Float.ofNat digit) 0.0

/-- The double that gathering at most seventeen digits and one scaling give, for
a decimal with the given digits before and after the point and the given
exponent. -/
def accumulated (whole fraction : List Nat) (exponent : Int) : Float :=
  let limit := 17
  let kept := fraction.take (limit - whole.length)
  let number := gatherDigits (whole.take limit ++ kept)
  let power :=
    exponent + ((whole.drop limit).length : Int) - (kept.length : Int)
  if 308 < power then
    if number == 0.0 then 0.0 else 1.0 / 0.0
  else if 0 < power then number * nearestPowerOfTen power.toNat
  else if power < -616 then 0.0
  else if power < -308 then
    number / nearestPowerOfTen (-308 - power).toNat / nearestPowerOfTen 308
  else number / nearestPowerOfTen (-power).toNat

end RatingFactors.Decimal
