import RatingFactors.Decimal.Layout

/-!
# Scalars

The arithmetic that learning needs, as a class. Everything the library computes
with ratings — steps, predictions, sums of squared errors — is written over an
arbitrary scalar and is run over doubles. A theory that needs exact arithmetic
works over the same definitions with a scalar whose addition is commutative and
associative.

Comparisons answer `false` whenever a side is not a number, which is all that
clamping and the checks of the monitor rely on.
-/

namespace RatingFactors

/-- Numbers that a model can be learned in. -/
class Scalar (α : Type) extends Add α, Sub α, Mul α, Div α, Neg α where
  /-- The number zero. -/
  zero : α
  /-- A whole number as a scalar. -/
  ofInt : Int → α
  /-- Is the first number less than the second? -/
  less : α → α → Bool
  /-- Are the numbers equal? -/
  same : α → α → Bool
  /-- Is this no number at all? -/
  isNaN : α → Bool
  /-- Is this larger in size than every number? -/
  isInfinite : α → Bool
  /-- The square root of a number that is not negative. -/
  root : α → α
  /-- The shortest text of the number. -/
  text : α → String
  /-- The text of the number with a set number of digits after the point. -/
  fixed : Nat → α → String

/-- A double made from a whole number. -/
def doubleOfInt (n : Int) : Float :=
  if n < 0 then -(Float.ofNat n.natAbs) else Float.ofNat n.natAbs

instance : Scalar Float where
  zero := 0.0
  ofInt := doubleOfInt
  less x y := x < y
  same x y := x == y
  isNaN := Float.isNaN
  isInfinite := Float.isInf
  root := Float.sqrt
  text := Decimal.text
  fixed := Decimal.fixed

namespace Scalar

variable {α : Type} [Scalar α]

/-- The larger of two numbers; the first unless the second is larger. -/
def larger (x y : α) : α :=
  if less x y then y else x

/-- The smaller of two numbers; the first unless the second is smaller. -/
def smaller (x y : α) : α :=
  if less y x then y else x

/-- The number moved into the range from `low` to `high`. What is not a number
stays so. -/
def clamp (low high x : α) : α :=
  smaller (larger x low) high

/-- A number as it stands in a written table: nothing for what is no number. -/
def cell (x : α) : String :=
  if isNaN x then "" else text x

/-- The sum of the products of matching entries, from the left. -/
def dot (xs ys : List α) : α :=
  (List.zipWith (· * ·) xs ys).foldl (· + ·) zero

/-- The sum of numbers, from the left. -/
def sum (xs : List α) : α :=
  xs.foldl (· + ·) zero

end Scalar

end RatingFactors
