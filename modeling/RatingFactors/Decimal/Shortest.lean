import RatingFactors.Decimal.Dyadic

/-!
# The shortest decimal that reads back

Of all decimals that round to a given double, the text of the double uses the
fewest digits, and of those with the fewest digits the one nearest to the exact
value.

The search goes over the decimal grids with one digit, two digits and so on. If
any point of a grid rounds to the value, then one of the two grid points around
the value does, so two tests a grid are enough, and seventeen digits always
suffice. All comparisons are between whole numbers.

## Main definitions

* `Dyadic.roundsTo` — does a decimal round to this double?
* `Dyadic.onGrid?` — the better of the two neighbours on one grid, if any rounds
  to the value.
* `Dyadic.shortest` — the digits chosen, as a whole number times a power of ten.
-/

namespace RatingFactors.Decimal

/-- A decimal `digits * 10 ^ exponent`. -/
structure Scaled where
  digits : Nat
  exponent : Int
deriving DecidableEq, Repr

namespace Dyadic

/-- Does the decimal `c * 10 ^ k` round to this value? The reals that round to
it reach halfway to either neighbour; the halfway points belong to it when its
mantissa is even. -/
def roundsTo (d : Dyadic) (c : Nat) (k : Int) : Bool :=
  let unit := powerOfTwo d.exponent.toNat * powerOfTen (-k).toNat
  let candidate := 4 * c * powerOfTen k.toNat * d.denominator
  let low := (4 * d.mantissa - (if d.narrowBelow then 1 else 2)) * unit
  let high := (4 * d.mantissa + 2) * unit
  if d.mantissa % 2 = 0 then low ≤ candidate && candidate ≤ high
  else low < candidate && candidate < high

/-- The neighbour of the value on the grid of multiples of `10 ^ k` that rounds
to it, if any; of two the nearer, and of two equally near the even one. -/
def onGrid? (d : Dyadic) (k : Int) : Option Nat :=
  let num := d.numerator * powerOfTen (-k).toNat
  let den := d.denominator * powerOfTen k.toNat
  let below := num / den
  match d.roundsTo below k, d.roundsTo (below + 1) k with
  | true, true => some (roundDiv num den)
  | true, false => some below
  | false, true => some (below + 1)
  | false, false => none

/-- A decimal without trailing zeros, the same value. The last argument bounds
the number of zeros taken off. -/
def trimZeros (c : Nat) (k : Int) : Nat → Scaled
  | 0 => ⟨c, k⟩
  | n + 1 => if c % 10 = 0 then trimZeros (c / 10) (k + 1) n else ⟨c, k⟩

/-- The shortest decimal that rounds to a positive value, and of those the
nearest. -/
def shortest (d : Dyadic) : Scaled :=
  let top := d.decimalExponent
  let hit := (List.range' 1 17).findSome? fun (n : Nat) =>
    let k := top - (n : Int) + 1
    (d.onGrid? k).map fun c => trimZeros c k n
  let last := roundDiv (d.numerator * powerOfTen (16 - top).toNat)
    (d.denominator * powerOfTen (top - 16).toNat)
  hit.getD ⟨last, top - 16⟩

end Dyadic

end RatingFactors.Decimal
